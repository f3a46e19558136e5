/-
The configuration of the real time clock.  Its 32 bit values lie in two registers each,
which may be written in the configuration mode only and take effect together when that
mode is left; the mode may be entered only after the last write has been completed.
-/
import OpenMptl.BusMonitor
import OpenMptl.RegvalFields

namespace OpenMptl

namespace F1.Rtc

section Registers

variable (T : Target)

theorem resetValue_lt {v : Nat} (h : v < 2 ^ 16) : v < 2 ^ T.fast16.width :=
  h.trans_le (Nat.pow_le_pow_right Nat.two_pos T.fast16_ge)

/-- A register of `RTC`; they are of type `uint_fast16_t`. -/
def rtcReg (offset : Nat) (permission : RegPerm) (resetValue : Nat) (h : resetValue < 2 ^ 16) :
    Reg :=
  ⟨T.fast16, 0x40002800 + offset, permission, resetValue, resetValue_lt T h⟩

def crh : Reg := rtcReg T 0x0 .rw 0x0000 (by decide)

def crl : Reg := rtcReg T 0x4 .rw 0x0020 (by decide)

def prlh : Reg := rtcReg T 0x8 .wo 0x0000 (by decide)

def prll : Reg := rtcReg T 0xc .wo 0x8000 (by decide)

def cnth : Reg := rtcReg T 0x18 .rw 0x0000 (by decide)

def cntl : Reg := rtcReg T 0x1c .rw 0x0000 (by decide)

def alrh : Reg := rtcReg T 0x20 .wo 0xFFFF (by decide)

def alrl : Reg := rtcReg T 0x24 .wo 0xFFFF (by decide)

theorem bit_fits (r : Reg) (hr : r.valueType = T.fast16) {i : Nat} (hi : i < 16) :
    1 ≤ 1 ∧ i + 1 ≤ r.width ∧ i < 32 ∧ 1 < 32 := by
  have hwidth : r.width = T.fast16.width := congrArg ValueType.width hr
  have hge := T.fast16_ge
  omega

/-- The bits of `CRL`. -/
inductive CrlBit
  | secf
  | alrf
  | owf
  | rsf
  | cnf
  | rtoff
deriving DecidableEq, Repr

def CrlBit.offset : CrlBit → Nat
  | .secf => 0
  | .alrf => 1
  | .owf => 2
  | .rsf => 3
  | .cnf => 4
  | .rtoff => 5

theorem CrlBit.offset_lt (b : CrlBit) : b.offset < 16 := by
  cases b <;> decide

/-- The events that can interrupt. -/
inductive Event
  | second
  | alarm
  | overflow
deriving DecidableEq, Repr

/-- SECF, ALRF and OWF; SECIE, ALRIE and OWIE have the same places in `CRH`. -/
def Event.flag : Event → CrlBit
  | .second => .secf
  | .alarm => .alrf
  | .overflow => .owf

def Event.bitNo (e : Event) : Nat := e.flag.offset

def crlBit (b : CrlBit) : Regbits T :=
  .ofLow T (crl T) b.offset 1 (bit_fits T (crl T) rfl b.offset_lt)

/-- SECIE, ALRIE or OWIE. -/
def crhBit (e : Event) : Regbits T :=
  .ofLow T (crh T) e.bitNo 1 (bit_fits T (crh T) rfl e.flag.offset_lt)

/-- SECF, ALRF, OWF, RSF and RTOFF. -/
def status (r : Reg) : Nat := if r = crl T then 0x2f else 0

end Registers

/-! The functions of `rtc<>`. -/

section Functions

variable (T : Target) (cfg : BitbandConfig)

def store (r : Reg) (v : Nat) : Waiting StatusBus PUnit :=
  .modify ((statusAccess (status T)).store r v)

/-- `while(RTC::CRL::RTOFF::test() == false);` -/
def waitConfigDone : Waiting StatusBus PUnit := poll (status T) cfg (crlBit T .rtoff).toRegmask

def enterConfigMode : Waiting StatusBus PUnit := do
  waitConfigDone T cfg
  setMask (status T) cfg (crlBit T .cnf).toRegmask

def exitConfigMode : Waiting StatusBus PUnit := do
  clearMask (status T) cfg (crlBit T .cnf).toRegmask
  waitConfigDone T cfg

/-- The body of the three setters. -/
def storePair (high low : Reg) (highValue lowValue : Nat) : Waiting StatusBus PUnit := do
  enterConfigMode T cfg
  store T high highValue
  store T low lowValue
  exitConfigMode T cfg

def waitSync : Waiting StatusBus PUnit := do
  clearMask (status T) cfg (crlBit T .rsf).toRegmask
  poll (status T) cfg (crlBit T .rsf).toRegmask

/-- `enable_second_interrupt()` and the like. -/
def enableInterrupt (e : Event) : Waiting StatusBus PUnit :=
  setMask (status T) cfg (crhBit T e).toRegmask

def disableInterrupt (e : Event) : Waiting StatusBus PUnit :=
  clearMask (status T) cfg (crhBit T e).toRegmask

/-- `clear_second_flag()` and the like. -/
def clearFlag (e : Event) : Waiting StatusBus PUnit :=
  clearMask (status T) cfg (crlBit T e.flag).toRegmask

def setCounter (value : BitVec 32) : Waiting StatusBus PUnit :=
  storePair T cfg (cnth T) (cntl T) (value >>> 16).toNat (value &&& 0xFFFF#32).toNat

def setPrescaler (value : BitVec 32) : Waiting StatusBus PUnit :=
  storePair T cfg (prlh T) (prll T) ((value &&& 0xF0000#32) >>> 16).toNat
    (value &&& 0xFFFF#32).toNat

/-- `set_time_base<tr_clk_freq>()`; the prescaler is an `unsigned`. -/
def setTimeBase (rtcclkFreq trClkFreq : BitVec 32) : Waiting StatusBus PUnit :=
  setPrescaler T cfg (rtcclkFreq / trClkFreq - 1#32)

def setAlarm (value : BitVec 32) : Waiting StatusBus PUnit :=
  storePair T cfg (alrh T) (alrl T) (value >>> 16).toNat (value &&& 0xFFFF#32).toNat

end Functions

/-- A call of a function of `rtc<>`. -/
inductive Call
  | waitSync
  | enableInterrupt (e : Event)
  | disableInterrupt (e : Event)
  | clearFlag (e : Event)
  | setCounter (value : BitVec 32)
  | setPrescaler (value : BitVec 32)
  | setTimeBase (rtcclkFreq trClkFreq : BitVec 32) (h : trClkFreq ≠ 0#32)
  | setAlarm (value : BitVec 32)

def Call.run (T : Target) (cfg : BitbandConfig) : Call → Waiting StatusBus PUnit
  | .waitSync => Rtc.waitSync T cfg
  | .enableInterrupt e => Rtc.enableInterrupt T cfg e
  | .disableInterrupt e => Rtc.disableInterrupt T cfg e
  | .clearFlag e => Rtc.clearFlag T cfg e
  | .setCounter value => Rtc.setCounter T cfg value
  | .setPrescaler value => Rtc.setPrescaler T cfg value
  | .setTimeBase rtcclkFreq trClkFreq _ => Rtc.setTimeBase T cfg rtcclkFreq trClkFreq
  | .setAlarm value => Rtc.setAlarm T cfg value

/-! What a program wants of the clock. -/

/-- The values in force. -/
@[ext] structure Settings where
  counter : Nat
  prescaler : Nat
  alarm : Nat
  interrupts : Event → Bool

def Settings.reset : Settings := ⟨0, 0x8000, 0xFFFFFFFF, fun _ => false⟩

/-- The prescaler has 20 bits. -/
def Call.apply : Call → Settings → Settings
  | .waitSync, a => a
  | .enableInterrupt e, a => { a with interrupts := Function.update a.interrupts e true }
  | .disableInterrupt e, a => { a with interrupts := Function.update a.interrupts e false }
  | .clearFlag _, a => a
  | .setCounter value, a => { a with counter := value.toNat }
  | .setPrescaler value, a => { a with prescaler := value.toNat % 2 ^ 20 }
  | .setTimeBase rtcclkFreq trClkFreq _, a =>
      { a with prescaler := (rtcclkFreq / trClkFreq - 1#32).toNat % 2 ^ 20 }
  | .setAlarm value, a => { a with alarm := value.toNat }

/-! What the hardware does. -/

section Hardware

variable (T : Target)

/-- The registers that are written in the configuration mode. -/
def configRegs : List Reg := [prlh T, prll T, cnth T, cntl T, alrh T, alrl T]

/-- The contents of a pair of registers; the upper one has `width` bits. -/
def pairOf (high low : Reg) (width : Nat) (f : RegFile) : Nat :=
  f.value high % 2 ^ width * 2 ^ 16 + f.value low % 2 ^ 16

def interruptsOf (f : RegFile) (e : Event) : Bool := (f.value (crh T)).testBit e.bitNo

/-- What the registers hold. -/
def settingsOf (f : RegFile) : Settings where
  counter := pairOf (cnth T) (cntl T) 16 f
  prescaler := pairOf (prlh T) (prll T) 4 f
  alarm := pairOf (alrh T) (alrl T) 16 f
  interrupts := interruptsOf T f

def configMode (f : RegFile) : Bool := (f.value (crl T)).testBit 4

/-- `ready` says that RTOFF has been shown since the last write took effect, and `obeyed`
that no rule of the hardware has been broken. -/
structure Block where
  file : RegFile
  settings : Settings
  ready : Bool
  obeyed : Bool

/-- The contents take effect when the configuration mode is left. -/
def Block.observe (b : Block) : BusEvent → Block
  | .read r v => { b with ready := b.ready || (decide (r = crl T) && v.testBit 5) }
  | .write r v =>
      let file := b.file.store r v
      let left := configMode T b.file && !configMode T file
      { file
        settings :=
          { (if left then settingsOf T file else b.settings) with
            interrupts := interruptsOf T file }
        ready := b.ready && !left
        obeyed := b.obeyed && (!decide (r ∈ configRegs T) || configMode T b.file) &&
          (configMode T b.file || !configMode T file || b.ready) }

/-- The rules are obeyed, and the values in force are among the permitted ones. -/
def monitor (permitted : Settings → Prop) : BusMonitor Block :=
  ⟨Block.observe T, fun b => b.obeyed = true ∧ permitted b.settings⟩

end Hardware

section Steps

variable {T : Target} {cfg : BitbandConfig} {permitted : Settings → Prop} {b₀ : Block}
  {a a' : Settings} {mode ready : Bool} {F : RegFile → Prop} {f : RegFile} {b : Block} {r : Reg}

theorem rtcReg_ne {o o' : Nat} {p p' : RegPerm} {v v' : Nat} {h : v < 2 ^ 16} {h' : v' < 2 ^ 16}
    (hne : o ≠ o') : rtcReg T o p v h ≠ rtcReg T o' p' v' h' :=
  fun heq => hne (Nat.add_left_cancel (congrArg Reg.addr heq))

theorem ne_of_mem_configRegs (h : r ∈ configRegs T) : r ≠ crl T ∧ r ≠ crh T := by
  simp only [configRegs, List.mem_cons, List.not_mem_nil, or_false] at h
  rcases h with rfl | rfl | rfl | rfl | rfl | rfl <;>
    exact ⟨rtcReg_ne (by decide), rtcReg_ne (by decide)⟩

theorem crl_not_mem : crl T ∉ configRegs T := fun h => (ne_of_mem_configRegs h).1 rfl

theorem crh_not_mem : crh T ∉ configRegs T := fun h => (ne_of_mem_configRegs h).2 rfl

theorem crh_ne_crl : crh T ≠ crl T := rtcReg_ne (by decide)

theorem status_crl : status T (crl T) = 0x2f := if_pos rfl

theorem status_crh : status T (crh T) = 0 := if_neg crh_ne_crl

theorem interruptsOf_store_of_ne (h : crh T ≠ r) (f : RegFile) (v : Nat) :
    interruptsOf T (f.store r v) = interruptsOf T f := by
  funext e
  rw [interruptsOf, f.store_value_of_ne h]
  rfl

theorem pairOf_store_of_ne {high low : Reg} (hhigh : high ≠ r) (hlow : low ≠ r) (width : Nat)
    (f : RegFile) (v : Nat) : pairOf high low width (f.store r v) = pairOf high low width f := by
  rw [pairOf, f.store_value_of_ne hhigh, f.store_value_of_ne hlow]
  rfl

/-- The control registers hold no value. -/
theorem settingsOf_store_of_control (hr : r = crl T ∨ r = crh T) (f : RegFile) (v : Nat) :
    settingsOf T (f.store r v) =
      { settingsOf T f with interrupts := interruptsOf T (f.store r v) } := by
  have hne : ∀ q ∈ configRegs T, q ≠ r := by
    intro q hq
    obtain ⟨hcrl, hcrh⟩ := ne_of_mem_configRegs hq
    rcases hr with rfl | rfl
    · exact hcrl
    · exact hcrh
  simp only [configRegs, List.mem_cons, List.not_mem_nil, or_false, forall_eq_or_imp,
    forall_eq] at hne
  obtain ⟨hprlh, hprll, hcnth, hcntl, halrh, halrl⟩ := hne
  simp only [settingsOf, pairOf_store_of_ne hcnth hcntl, pairOf_store_of_ne hprlh hprll,
    pairOf_store_of_ne halrh halrl]

theorem configMode_store_of_ne (h : crl T ≠ r) (f : RegFile) (v : Nat) :
    configMode T (f.store r v) = configMode T f := by
  rw [configMode, f.store_value_of_ne h]
  rfl

/-- What is known between two accesses: the values in force, the mode, whether RTOFF has been
shown, and what the registers hold. -/
structure Known (T : Target) (a : Settings) (mode ready : Bool) (F : RegFile → Prop)
    (f : RegFile) (b : Block) : Prop where
  file : b.file = f
  settings : b.settings = a
  mode : configMode T f = mode
  interrupts : interruptsOf T f = a.interrupts
  ready : ready = true → b.ready = true
  contents : F f

theorem readKeeps (r : Reg) :
    (monitor T permitted).ReadKeeps r (Known T a mode ready F) := by
  intro f b v hgood h
  refine ⟨hgood, h.file, h.settings, h.mode, h.interrupts, fun hready => ?_, h.contents⟩
  change (b.ready || (decide (r = crl T) && v.testBit 5)) = true
  rw [h.ready hready, Bool.true_or]

theorem waitConfigDone_triple :
    Waiting.Triple ((monitor T permitted).Watched b₀ (Known T a mode ready F))
      (waitConfigDone T cfg)
      (fun _ => (monitor T permitted).Watched b₀ (Known T a mode true F))
      ((monitor T permitted).Clean b₀) := by
  refine BusMonitor.poll_watched (crlBit T .rtoff).clearMask_ne_zero (readKeeps _)
    fun s b _ h hholds => ⟨h.file, h.settings, h.mode, h.interrupts, fun _ => ?_, h.contents⟩
  rw [Regbits.holds_of_single rfl] at hholds
  change (b.ready || (decide (crl T = crl T) && (s.shown (status T) (crl T)).testBit 5)) = true
  rw [decide_eq_true rfl, Bool.true_and]
  exact Bool.or_eq_true_iff.mpr (.inr hholds)

/-- What a store makes of the values in force. -/
def settingsAfter (T : Target) (a : Settings) (mode mode' : Bool) (f : RegFile) : Settings :=
  { (if mode && !mode' then settingsOf T f else a) with interrupts := interruptsOf T f }

/-- The step of a store: it obeys the rules, and the values in force may have changed. -/
theorem Known.write {mode' ready' : Bool} {F' : RegFile → Prop} {v : Nat}
    (h : Known T a mode ready F f b) (hgood : (monitor T permitted).good b)
    (hmode : configMode T (f.store r v) = mode')
    (hrule : r ∈ configRegs T → mode = true)
    (henter : mode = false → mode' = true → ready = true)
    (hsettings : settingsAfter T a mode mode' (f.store r v) = a')
    (hready : ready' = true → ready = true ∧ (mode && !mode') = false)
    (hcontents : F' (f.store r v)) (hpermitted : permitted a') :
    (monitor T permitted).good
        ((monitor T permitted).observe b (.write r (v % 2 ^ r.width))) ∧
      Known T a' mode' ready' F' (f.store r v)
        ((monitor T permitted).observe b (.write r (v % 2 ^ r.width))) := by
  obtain ⟨rfl, rfl, hmodeBefore, -, hreadyBefore, -⟩ := h
  have hstore := b.file.store_mod r v
  have hsettingsAfter : (b.observe T (.write r (v % 2 ^ r.width))).settings = a' := by
    simp only [Block.observe, hstore, hmode, hmodeBefore]
    exact hsettings
  have hinterrupts : interruptsOf T (b.file.store r v) = a'.interrupts :=
    congrArg Settings.interrupts hsettings
  have hobeyed : (b.observe T (.write r (v % 2 ^ r.width))).obeyed = true := by
    simp only [Block.observe, hstore, hmode, hmodeBefore, hgood.1, Bool.true_and]
    cases mode with
    | true => simp
    | false =>
        have hout : r ∉ configRegs T := fun hmem => Bool.false_ne_true (hrule hmem)
        cases mode' with
        | true => simp [hout, hreadyBefore (henter rfl rfl)]
        | false => simp [hout]
  refine ⟨⟨hobeyed, ?_⟩, hstore, hsettingsAfter, hmode, hinterrupts, fun hr => ?_, hcontents⟩
  · change permitted (b.observe T (.write r (v % 2 ^ r.width))).settings
    rw [hsettingsAfter]
    exact hpermitted
  · obtain ⟨hbefore, hstay⟩ := hready hr
    change (b.observe T (.write r (v % 2 ^ r.width))).ready = true
    simp only [Block.observe, hstore, hmode, hmodeBefore, hstay, hreadyBefore hbefore]
    rfl

/-- Enter the configuration mode. -/
theorem setCnf_triple (hpermitted : permitted a) :
    Waiting.Triple
      ((monitor T permitted).Watched b₀ (Known T a false true fun f => settingsOf T f = a))
      (setMask (status T) cfg (crlBit T .cnf).toRegmask)
      (fun _ => (monitor T permitted).Watched b₀
        (Known T a true true fun f => settingsOf T f = a))
      ((monitor T permitted).Clean b₀) := by
  have hclear : (crlBit T .cnf).toRegmask.clearMask = 2 ^ 4 :=
    (crlBit T .cnf).clearMask_eq_two_pow rfl
  have hset : (crlBit T .cnf).toRegmask.setMask = 2 ^ 4 := hclear
  refine BusMonitor.set_triple (crlBit T .cnf).clearMask_ne_zero (readKeeps _)
    fun s b v hgood h hv => ?_
  have hbit := (hv.single hclear).1
  have hmode : configMode T (s.file.store (crl T) v) = true := by
    rw [configMode, s.file.store_value_of_lt (crl T) hv.lt, hbit, hset]
    exact Nat.testBit_two_pow_self
  have hinterrupts := interruptsOf_store_of_ne (crh_ne_crl (T := T)) s.file v
  refine h.write (r := crl T) hgood hmode (fun hmem => absurd hmem crl_not_mem)
    (fun _ _ => rfl) ?_ (fun _ => ⟨rfl, rfl⟩) ?_ hpermitted
  · rw [settingsAfter, hinterrupts, h.interrupts]
    rfl
  · rw [settingsOf_store_of_control (.inl rfl), hinterrupts, h.contents, h.interrupts]

/-- Leave it: the contents take effect. -/
theorem clearCnf_triple (hpermitted : permitted a') :
    Waiting.Triple
      ((monitor T permitted).Watched b₀ (Known T a true true fun f => settingsOf T f = a'))
      (clearMask (status T) cfg (crlBit T .cnf).toRegmask)
      (fun _ => (monitor T permitted).Watched b₀
        (Known T a' false false fun f => settingsOf T f = a'))
      ((monitor T permitted).Clean b₀) := by
  have hclear : (crlBit T .cnf).toRegmask.cleared.clearMask = 2 ^ 4 :=
    (crlBit T .cnf).clearMask_eq_two_pow rfl
  refine BusMonitor.clear_triple (crlBit T .cnf).clearMask_ne_zero (readKeeps _)
    fun s b v hgood h hv => ?_
  have hmode : configMode T (s.file.store (crl T) v) = false := by
    rw [configMode, s.file.store_value_of_lt (crl T) hv.lt, (hv.single hclear).1]
    exact Nat.zero_testBit 4
  have hcontents : settingsOf T (s.file.store (crl T) v) = a' := by
    rw [settingsOf_store_of_control (.inl rfl), interruptsOf_store_of_ne crh_ne_crl,
      ← h.contents]
    rfl
  refine h.write (r := crl T) hgood hmode (fun hmem => absurd hmem crl_not_mem)
    (fun hm => by cases hm) ?_ (fun hr => by cases hr) hcontents hpermitted
  rw [settingsAfter, ← hcontents]
  rfl

/-- A store in the configuration mode. -/
theorem storeConfig_triple {v : Nat} (hr : r ∈ configRegs T) (hpermitted : permitted a) :
    Waiting.Triple
      ((monitor T permitted).Watched b₀ (Known T a true true F)) (store T r v)
      (fun _ => (monitor T permitted).Watched b₀
        (Known T a true true fun f => ∃ f₀, F f₀ ∧ f = f₀.store r v))
      ((monitor T permitted).Clean b₀) := by
  obtain ⟨hcrl, hcrh⟩ := ne_of_mem_configRegs hr
  refine BusMonitor.store_triple fun f b hgood h => ?_
  have hmode : configMode T (f.store r v) = true := by
    rw [configMode_store_of_ne hcrl.symm, h.mode]
  refine h.write hgood hmode (fun _ => rfl) (fun hm => by cases hm) ?_ (fun _ => ⟨rfl, rfl⟩)
    ⟨f, h.contents, rfl⟩ hpermitted
  rw [settingsAfter, interruptsOf_store_of_ne hcrh.symm, h.interrupts]
  rfl

/-- One of the three setters: both halves take effect at once. -/
theorem storePair_triple {high low : Reg} {highValue lowValue : Nat}
    (hhigh : high ∈ configRegs T) (hlow : low ∈ configRegs T)
    (hnew : ∀ f, settingsOf T f = a →
      settingsOf T ((f.store high highValue).store low lowValue) = a')
    (hpermitted : permitted a) (hpermitted' : permitted a') :
    Waiting.Triple
      ((monitor T permitted).Watched b₀ (Known T a false false fun f => settingsOf T f = a))
      (storePair T cfg high low highValue lowValue)
      (fun _ => (monitor T permitted).Watched b₀
        (Known T a' false false fun f => settingsOf T f = a'))
      ((monitor T permitted).Clean b₀) := by
  refine Waiting.Triple.bind (Waiting.Triple.bind waitConfigDone_triple fun _ =>
    setCnf_triple hpermitted) fun _ => ?_
  refine Waiting.Triple.bind (storeConfig_triple hhigh hpermitted) fun _ => ?_
  refine Waiting.Triple.bind (storeConfig_triple hlow hpermitted) fun _ => ?_
  refine Waiting.Triple.bind (Waiting.Triple.mono (clearCnf_triple hpermitted')
    (fun s h => h.mono fun f b _ hknown => { hknown with contents := ?_ }) (fun _ _ h => h)
    fun _ h => h) fun _ => ?_
  · obtain ⟨f₁, ⟨f₀, hf₀, rfl⟩, rfl⟩ := hknown.contents
    exact hnew f₀ hf₀
  · refine Waiting.Triple.mono waitConfigDone_triple (fun s h => h)
      (fun _ s h => h.mono fun f b _ hknown => { hknown with ready := ?_ }) fun _ h => h
    intro hr
    cases hr

theorem Event.bitNo_injective : Function.Injective Event.bitNo := by
  intro e e' h
  cases e <;> cases e' <;> first | rfl | cases h

/-- A bit of CRH is the interrupt of one event. -/
theorem interruptsOf_store_single {t : Regmask} {s : StatusBus} {e : Event} {v : Nat}
    (hreg : t.reg = crh T) (hclear : t.clearMask = 2 ^ e.bitNo)
    (hv : Written (status T) t s v) :
    interruptsOf T (s.file.store (crh T) v) =
      Function.update (interruptsOf T s.file) e (t.setMask.testBit e.bitNo) := by
  have hlt : v < 2 ^ (crh T).width := hreg ▸ hv.lt
  obtain ⟨hbit, hothers⟩ := hv.single hclear
  funext e'
  rw [interruptsOf, s.file.store_value_of_lt (crh T) hlt]
  by_cases he : e' = e
  · subst he
    rw [Function.update_self, hbit]
  · have hne : e'.bitNo ≠ e.bitNo := fun h =>
      he (Event.bitNo_injective h)
    rw [Function.update_of_ne he, hothers _ hne (by rw [hreg, status_crh, Nat.zero_testBit]),
      hreg, interruptsOf]

/-- A store to CRH changes the interrupts, and they are in force at once. -/
theorem Known.interrupts_write {t : Regmask} {s : StatusBus} {e : Event} {v : Nat}
    (h : Known T a false false (fun f => settingsOf T f = a) s.file b)
    (hgood : (monitor T permitted).good b) (hreg : t.reg = crh T)
    (hclear : t.clearMask = 2 ^ e.bitNo) (hv : Written (status T) t s v)
    (ha' : { a with
      interrupts := Function.update a.interrupts e (t.setMask.testBit e.bitNo) } = a')
    (hpermitted : permitted a') :
    (monitor T permitted).good
        ((monitor T permitted).observe b (.write t.reg (v % 2 ^ t.reg.width))) ∧
      Known T a' false false (fun f => settingsOf T f = a') (s.file.store t.reg v)
        ((monitor T permitted).observe b (.write t.reg (v % 2 ^ t.reg.width))) := by
  have hinterrupts := interruptsOf_store_single hreg hclear hv
  rw [h.interrupts] at hinterrupts
  rw [hreg]
  refine h.write hgood ?_ (fun hmem => absurd hmem crh_not_mem) (fun _ hm => by cases hm) ?_
    (fun hr => by cases hr) ?_ hpermitted
  · rw [configMode_store_of_ne crh_ne_crl.symm, h.mode]
  · rw [settingsAfter, hinterrupts]
    exact ha'
  · rw [settingsOf_store_of_control (.inr rfl), hinterrupts, h.contents]
    exact ha'

theorem enableInterrupt_triple {e : Event}
    (hpermitted : permitted ((Call.enableInterrupt e).apply a)) :
    Waiting.Triple
      ((monitor T permitted).Watched b₀ (Known T a false false fun f => settingsOf T f = a))
      (enableInterrupt T cfg e)
      (fun _ => (monitor T permitted).Watched b₀
        (Known T ((Call.enableInterrupt e).apply a) false false fun f =>
          settingsOf T f = (Call.enableInterrupt e).apply a))
      ((monitor T permitted).Clean b₀) := by
  have hclear : (crhBit T e).toRegmask.clearMask = 2 ^ e.bitNo :=
    (crhBit T e).clearMask_eq_two_pow rfl
  have hset : (crhBit T e).toRegmask.setMask = 2 ^ e.bitNo := hclear
  refine BusMonitor.set_triple (crhBit T e).clearMask_ne_zero (readKeeps _)
    fun s b v hgood h hv => h.interrupts_write hgood rfl hclear hv ?_ hpermitted
  rw [hset, Nat.testBit_two_pow_self]
  rfl

theorem disableInterrupt_triple {e : Event}
    (hpermitted : permitted ((Call.disableInterrupt e).apply a)) :
    Waiting.Triple
      ((monitor T permitted).Watched b₀ (Known T a false false fun f => settingsOf T f = a))
      (disableInterrupt T cfg e)
      (fun _ => (monitor T permitted).Watched b₀
        (Known T ((Call.disableInterrupt e).apply a) false false fun f =>
          settingsOf T f = (Call.disableInterrupt e).apply a))
      ((monitor T permitted).Clean b₀) := by
  have hclear : (crhBit T e).toRegmask.cleared.clearMask = 2 ^ e.bitNo :=
    (crhBit T e).clearMask_eq_two_pow rfl
  refine BusMonitor.clear_triple (crhBit T e).clearMask_ne_zero (readKeeps _)
    fun s b v hgood h hv => h.interrupts_write (t := (crhBit T e).toRegmask.cleared)
      hgood rfl hclear hv ?_ hpermitted
  change { a with interrupts := Function.update a.interrupts e ((0 : Nat).testBit e.bitNo) } = _
  rw [Nat.zero_testBit]
  rfl

/-- The flags are cleared without a change of the mode. -/
theorem clearControl_triple {bit : CrlBit} (hbit : bit ≠ .cnf) (hpermitted : permitted a) :
    Waiting.Triple
      ((monitor T permitted).Watched b₀ (Known T a false false fun f => settingsOf T f = a))
      (clearMask (status T) cfg (crlBit T bit).toRegmask)
      (fun _ => (monitor T permitted).Watched b₀
        (Known T a false false fun f => settingsOf T f = a))
      ((monitor T permitted).Clean b₀) := by
  have hclear : (crlBit T bit).toRegmask.cleared.clearMask = 2 ^ bit.offset :=
    (crlBit T bit).clearMask_eq_two_pow rfl
  refine BusMonitor.clear_triple (crlBit T bit).clearMask_ne_zero (readKeeps _)
    fun s b v hgood h hv => ?_
  have hne : 4 ≠ bit.offset := by
    cases bit <;> first | decide | exact absurd rfl hbit
  have hstatus : (status T (crl T)).testBit 4 = false := by
    rw [status_crl]
    rfl
  have hmode : configMode T (s.file.store (crl T) v) = false := by
    rw [configMode, s.file.store_value_of_lt (crl T) hv.lt, ← h.mode]
    exact (hv.single hclear).2 4 hne hstatus
  have hcontents : settingsOf T (s.file.store (crl T) v) = a := by
    rw [settingsOf_store_of_control (.inl rfl), interruptsOf_store_of_ne crh_ne_crl,
      ← h.contents]
    rfl
  refine h.write (r := crl T) hgood hmode (fun hmem => absurd hmem crl_not_mem)
    (fun _ hm => by cases hm) ?_ (fun hr => by cases hr) hcontents hpermitted
  rw [settingsAfter, interruptsOf_store_of_ne crh_ne_crl, h.interrupts]
  rfl

theorem waitSync_triple (hpermitted : permitted a) :
    Waiting.Triple
      ((monitor T permitted).Watched b₀ (Known T a false false fun f => settingsOf T f = a))
      (waitSync T cfg)
      (fun _ => (monitor T permitted).Watched b₀
        (Known T a false false fun f => settingsOf T f = a))
      ((monitor T permitted).Clean b₀) := by
  refine Waiting.Triple.bind (clearControl_triple (by decide) hpermitted) fun _ => ?_
  exact BusMonitor.poll_watched (crlBit T .rsf).clearMask_ne_zero (readKeeps _)
    fun s b hgood h _ => (readKeeps _ _ _ _ hgood h).2

end Steps

/-! The halves of a value. -/

section Values

variable {T : Target} {cfg : BitbandConfig} {permitted : Settings → Prop} {b₀ : Block}
  {a : Settings}

theorem pairOf_store {high low : Reg} (hhigh : high.valueType = T.fast16)
    (hlow : low.valueType = T.fast16) (hne : high ≠ low) {width : Nat} (hwidth : width ≤ 16)
    (f : RegFile) (x y : Nat) :
    pairOf high low width ((f.store high x).store low y) =
      x % 2 ^ width * 2 ^ 16 + y % 2 ^ 16 := by
  have hhighWidth : high.width = T.fast16.width := congrArg ValueType.width hhigh
  have hlowWidth : low.width = T.fast16.width := congrArg ValueType.width hlow
  have hge := T.fast16_ge
  rw [pairOf, RegFile.store_value_of_ne _ hne, RegFile.store_value_self,
    RegFile.store_value_self,
    Nat.mod_mod_of_dvd x (Nat.pow_dvd_pow 2 (hhighWidth ▸ hwidth.trans hge)),
    Nat.mod_mod_of_dvd y (Nat.pow_dvd_pow 2 (hlowWidth ▸ hge))]

theorem toNat_and_low (value : BitVec 32) :
    (value &&& 0xFFFF#32).toNat = value.toNat % 2 ^ 16 := by
  have hmask : (0xFFFF#32).toNat = 2 ^ 16 - 1 := rfl
  rw [BitVec.toNat_and, hmask, Nat.and_two_pow_sub_one_eq_mod]

theorem halves_eq (value : BitVec 32) :
    (value >>> 16).toNat % 2 ^ 16 * 2 ^ 16 + (value &&& 0xFFFF#32).toNat % 2 ^ 16 =
      value.toNat := by
  have hlt := value.isLt
  rw [BitVec.toNat_ushiftRight, toNat_and_low, Nat.shiftRight_eq_div_pow]
  omega

theorem prescalerHalves_eq (value : BitVec 32) :
    ((value &&& 0xF0000#32) >>> 16).toNat % 2 ^ 4 * 2 ^ 16 +
        (value &&& 0xFFFF#32).toNat % 2 ^ 16 = value.toNat % 2 ^ 20 := by
  have hmask : (0xF0000#32).toNat = (2 ^ 4 - 1) <<< 16 := rfl
  rw [BitVec.toNat_ushiftRight, BitVec.toNat_and, hmask, toNat_and_low,
    Nat.shiftRight_and_distrib, Nat.shiftLeft_shiftRight, Nat.and_two_pow_sub_one_eq_mod,
    Nat.shiftRight_eq_div_pow]
  omega

/-- Stores to one pair leave another pair and the interrupts alone. -/
theorem settingsOf_store_pair {high low : Reg} (hhigh : high ∈ configRegs T)
    (hlow : low ∈ configRegs T) (x y : Nat) (f : RegFile) :
    interruptsOf T ((f.store high x).store low y) = interruptsOf T f ∧
      ∀ {high' low' width}, (∀ q ∈ [high', low'], q ≠ high ∧ q ≠ low) →
        pairOf high' low' width ((f.store high x).store low y) = pairOf high' low' width f := by
  refine ⟨?_, fun {high' low' width} hne => ?_⟩
  · rw [interruptsOf_store_of_ne (ne_of_mem_configRegs hlow).2.symm,
      interruptsOf_store_of_ne (ne_of_mem_configRegs hhigh).2.symm]
  · obtain ⟨hhigh', hhighLow⟩ := hne high' List.mem_cons_self
    obtain ⟨hlowHigh, hlow'⟩ := hne low' (List.mem_cons_of_mem _ List.mem_cons_self)
    rw [pairOf_store_of_ne hhighLow hlow', pairOf_store_of_ne hhigh' hlowHigh]

theorem pair_ne {o₁ o₂ o₃ o₄ : Nat} {p : RegPerm} {p' : RegPerm} {v₁ v₂ v₃ v₄ : Nat}
    {h₁ : v₁ < 2 ^ 16} {h₂ : v₂ < 2 ^ 16} {h₃ : v₃ < 2 ^ 16} {h₄ : v₄ < 2 ^ 16}
    (hne : (o₁ ≠ o₃ ∧ o₁ ≠ o₄) ∧ o₂ ≠ o₃ ∧ o₂ ≠ o₄) :
    ∀ q ∈ [rtcReg T o₁ p v₁ h₁, rtcReg T o₂ p v₂ h₂],
      q ≠ rtcReg T o₃ p' v₃ h₃ ∧ q ≠ rtcReg T o₄ p' v₄ h₄ := by
  intro q hq
  simp only [List.mem_cons, List.not_mem_nil, or_false] at hq
  rcases hq with rfl | rfl
  · exact ⟨rtcReg_ne hne.1.1, rtcReg_ne hne.1.2⟩
  · exact ⟨rtcReg_ne hne.2.1, rtcReg_ne hne.2.2⟩

theorem settingsOf_setCounter (value : BitVec 32) (f : RegFile) :
    settingsOf T ((f.store (cnth T) (value >>> 16).toNat).store (cntl T)
        (value &&& 0xFFFF#32).toNat) =
      { settingsOf T f with counter := value.toNat } := by
  have hne : cnth T ≠ cntl T := rtcReg_ne (by decide)
  have hpair := @pairOf_store T (cnth T) (cntl T) rfl rfl hne 16 le_rfl f
  obtain ⟨hinterrupts, hothers⟩ := @settingsOf_store_pair T (cnth T) (cntl T)
    (by simp [configRegs]) (by simp [configRegs]) (value >>> 16).toNat
    (value &&& 0xFFFF#32).toNat f
  exact Settings.ext ((hpair _ _).trans (halves_eq value)) (hothers (pair_ne (by decide)))
    (hothers (pair_ne (by decide))) hinterrupts

theorem settingsOf_setPrescaler (value : BitVec 32) (f : RegFile) :
    settingsOf T ((f.store (prlh T) ((value &&& 0xF0000#32) >>> 16).toNat).store (prll T)
        (value &&& 0xFFFF#32).toNat) =
      { settingsOf T f with prescaler := value.toNat % 2 ^ 20 } := by
  have hne : prlh T ≠ prll T := rtcReg_ne (by decide)
  have hpair := @pairOf_store T (prlh T) (prll T) rfl rfl hne 4 (by decide) f
  obtain ⟨hinterrupts, hothers⟩ := @settingsOf_store_pair T (prlh T) (prll T)
    (by simp [configRegs]) (by simp [configRegs]) ((value &&& 0xF0000#32) >>> 16).toNat
    (value &&& 0xFFFF#32).toNat f
  exact Settings.ext (hothers (pair_ne (by decide)))
    ((hpair _ _).trans (prescalerHalves_eq value)) (hothers (pair_ne (by decide))) hinterrupts

theorem settingsOf_setAlarm (value : BitVec 32) (f : RegFile) :
    settingsOf T ((f.store (alrh T) (value >>> 16).toNat).store (alrl T)
        (value &&& 0xFFFF#32).toNat) =
      { settingsOf T f with alarm := value.toNat } := by
  have hne : alrh T ≠ alrl T := rtcReg_ne (by decide)
  have hpair := @pairOf_store T (alrh T) (alrl T) rfl rfl hne 16 le_rfl f
  obtain ⟨hinterrupts, hothers⟩ := @settingsOf_store_pair T (alrh T) (alrl T)
    (by simp [configRegs]) (by simp [configRegs]) (value >>> 16).toNat
    (value &&& 0xFFFF#32).toNat f
  exact Settings.ext (hothers (pair_ne (by decide))) (hothers (pair_ne (by decide)))
    ((hpair _ _).trans (halves_eq value)) hinterrupts

/-- Every call takes effect as a whole. -/
theorem call_triple (call : Call) (hpermitted : permitted a)
    (hpermitted' : permitted (call.apply a)) :
    Waiting.Triple
      ((monitor T permitted).Watched b₀ (Known T a false false fun f => settingsOf T f = a))
      (call.run T cfg)
      (fun _ => (monitor T permitted).Watched b₀
        (Known T (call.apply a) false false fun f => settingsOf T f = call.apply a))
      ((monitor T permitted).Clean b₀) := by
  have hprescaler : ∀ value : BitVec 32,
      permitted { a with prescaler := value.toNat % 2 ^ 20 } →
      Waiting.Triple
        ((monitor T permitted).Watched b₀ (Known T a false false fun f => settingsOf T f = a))
        (setPrescaler T cfg value)
        (fun _ => (monitor T permitted).Watched b₀
          (Known T { a with prescaler := value.toNat % 2 ^ 20 } false false fun f =>
            settingsOf T f = { a with prescaler := value.toNat % 2 ^ 20 }))
        ((monitor T permitted).Clean b₀) := by
    intro value hnew
    refine storePair_triple (by simp [configRegs]) (by simp [configRegs])
      (fun f hf => ?_) hpermitted hnew
    rw [settingsOf_setPrescaler, hf]
  cases call with
  | waitSync => exact waitSync_triple hpermitted
  | enableInterrupt e => exact enableInterrupt_triple hpermitted'
  | disableInterrupt e => exact disableInterrupt_triple hpermitted'
  | clearFlag e =>
      have hne : e.flag ≠ .cnf := by cases e <;> decide
      exact clearControl_triple hne hpermitted
  | setCounter value =>
      refine storePair_triple (by simp [configRegs]) (by simp [configRegs])
        (fun f hf => ?_) hpermitted hpermitted'
      rw [settingsOf_setCounter, hf]
      rfl
  | setPrescaler value => exact hprescaler value hpermitted'
  | setTimeBase rtcclkFreq trClkFreq h => exact hprescaler _ hpermitted'
  | setAlarm value =>
      refine storePair_triple (by simp [configRegs]) (by simp [configRegs])
        (fun f hf => ?_) hpermitted hpermitted'
      rw [settingsOf_setAlarm, hf]
      rfl

/-- The values that the first calls want. -/
def wanted (calls : List Call) (a : Settings) : Settings :=
  calls.foldl (fun a call => call.apply a) a

/-- A program of calls, whose parts all are permitted. -/
theorem calls_triple (calls : List Call) (hpermitted : ∀ k, permitted (wanted (calls.take k) a)) :
    Waiting.Triple
      ((monitor T permitted).Watched b₀ (Known T a false false fun f => settingsOf T f = a))
      (calls.forM (Call.run T cfg))
      (fun _ => (monitor T permitted).Watched b₀
        (Known T (wanted calls a) false false fun f => settingsOf T f = wanted calls a))
      ((monitor T permitted).Clean b₀) := by
  induction calls generalizing a with
  | nil => exact Waiting.Triple.pure fun _ h => h
  | cons call calls ih =>
      exact Waiting.Triple.bind (call_triple call (hpermitted 0) (hpermitted 1)) fun _ =>
        ih fun k => hpermitted (k + 1)

end Values

/-! A program of calls returns where the flags are shown. -/

section Progress

variable {T : Target} {cfg : BitbandConfig} {n : Nat}

/-- RSF and RTOFF. -/
def showsFlags (v : Nat) : Bool := v.testBit 3 && v.testBit 5

/-- The flags are shown `n` times. -/
def flagsShown (n : Nat) : List (Nat → Prop) := List.replicate n fun v => showsFlags v = true

theorem poll_prompt {bit : CrlBit} (hbit : bit = .rsf ∨ bit = .rtoff) :
    Waiting.Triple (Prompt (flagsShown (n + 1))) (poll (status T) cfg (crlBit T bit).toRegmask)
      (fun _ => Prompt (flagsShown n)) fun _ => False := by
  refine Prompt.poll_triple (crlBit T bit).clearMask_ne_zero fun s hshows => ?_
  have hstatus : (status T (crl T)).testBit bit.offset = true := by
    rw [status_crl]
    rcases hbit with rfl | rfl <;> rfl
  rw [Regbits.holds_of_single rfl]
  refine (StatusBus.testBit_shown_of_status (crl T) s hstatus).trans ?_
  obtain ⟨hrsf, hrtoff⟩ := Bool.and_eq_true_iff.mp hshows
  rcases hbit with rfl | rfl
  · exact hrsf
  · exact hrtoff

theorem store_prompt (r : Reg) (v : Nat) :
    Waiting.Triple (Prompt (flagsShown n)) (store T r v) (fun _ => Prompt (flagsShown n))
      fun _ => False :=
  Waiting.Triple.modify fun _ h => h.didWrite r v

/-- A setter loads four times at most, besides the turns of its loops. -/
theorem storePair_prompt {high low : Reg} {highValue lowValue : Nat} :
    Waiting.Triple (Prompt (flagsShown (n + 4))) (storePair T cfg high low highValue lowValue)
      (fun _ => Prompt (flagsShown n)) fun _ => False := by
  refine Waiting.Triple.bind (Waiting.Triple.bind (poll_prompt (.inr rfl)) fun _ =>
    Prompt.setMask_triple (crlBit T .cnf).clearMask_ne_zero) fun _ => ?_
  refine Waiting.Triple.bind (store_prompt high highValue) fun _ => ?_
  refine Waiting.Triple.bind (store_prompt low lowValue) fun _ => ?_
  exact Waiting.Triple.bind (Prompt.clearMask_triple (crlBit T .cnf).clearMask_ne_zero) fun _ =>
    poll_prompt (.inr rfl)

theorem call_prompt (call : Call) :
    Waiting.Triple (Prompt (flagsShown (n + 4))) (call.run T cfg)
      (fun _ => Prompt (flagsShown n)) fun _ => False := by
  have hsingle : ∀ {prog : Waiting StatusBus PUnit},
      (Waiting.Triple (Prompt (flagsShown (n + 1))) prog (fun _ => Prompt (flagsShown n))
        fun _ => False) →
      Waiting.Triple (Prompt (flagsShown (n + 4))) prog (fun _ => Prompt (flagsShown n))
        fun _ => False :=
    fun h => h.mono (fun _ hs => Prompt.le hs (by omega)) (fun _ _ hs => hs) fun _ hs => hs
  cases call with
  | waitSync =>
      refine Waiting.Triple.bind (Prompt.clearMask_triple (crlBit T .rsf).clearMask_ne_zero)
        fun _ => ?_
      exact (poll_prompt (.inl rfl)).mono (fun _ hs => Prompt.le hs (by omega))
        (fun _ _ hs => hs) fun _ hs => hs
  | enableInterrupt e => exact hsingle (Prompt.setMask_triple (crhBit T e).clearMask_ne_zero)
  | disableInterrupt e => exact hsingle (Prompt.clearMask_triple (crhBit T e).clearMask_ne_zero)
  | clearFlag e => exact hsingle (Prompt.clearMask_triple (crlBit T e.flag).clearMask_ne_zero)
  | setCounter value => exact storePair_prompt
  | setPrescaler value => exact storePair_prompt
  | setTimeBase rtcclkFreq trClkFreq h => exact storePair_prompt
  | setAlarm value => exact storePair_prompt

theorem calls_prompt (calls : List Call) :
    Waiting.Triple (Prompt (flagsShown (4 * calls.length))) (calls.forM (Call.run T cfg))
      (fun _ _ => True) fun _ => False := by
  induction calls with
  | nil => exact Waiting.Triple.pure fun _ _ => trivial
  | cons call calls ih => exact Waiting.Triple.bind (call_prompt call) fun _ => ih

end Progress

def Block.atReset : Block := ⟨.atReset, .reset, false, true⟩

theorem settingsOf_atReset (T : Target) : settingsOf T .atReset = .reset := by
  have hcounter : 0 % 2 ^ 16 * 2 ^ 16 + 0 % 2 ^ 16 = 0 := by decide
  have hprescaler : 0 % 2 ^ 4 * 2 ^ 16 + 0x8000 % 2 ^ 16 = 0x8000 := by decide
  have halarm : 0xFFFF % 2 ^ 16 * 2 ^ 16 + 0xFFFF % 2 ^ 16 = 0xFFFFFFFF := by decide
  refine Settings.ext hcounter hprescaler halarm ?_
  funext e
  exact Nat.zero_testBit e.bitNo

theorem known_atReset (T : Target) :
    Known T .reset false false (fun f => settingsOf T f = .reset) .atReset .atReset where
  file := rfl
  settings := rfl
  mode := by
    have hcrl : (0x0020 : Nat).testBit 4 = false := by decide
    exact hcrl
  interrupts := congrArg Settings.interrupts (settingsOf_atReset T)
  ready h := by cases h
  contents := settingsOf_atReset T

/-- A program of calls after a reset. -/
def runCalls (T : Target) (cfg : BitbandConfig) (calls : List Call) (readings : List Nat) :
    Option Unit × StatusBus :=
  calls.forM (Call.run T cfg) (.atReset readings)

/-- Whatever RTOFF and RSF show and when, the rules of the hardware are obeyed, and the
values in force are at all times those that a first part of the calls wants; when the
program returns they are those of all the calls, out of the configuration mode.  It does
return where the flags are shown often enough, whatever is shown in between. -/
theorem rtcCalls_take_effect_whole (T : Target) (cfg : BitbandConfig) (calls : List Call)
    (readings : List Nat) :
    (∀ done, done <+: (runCalls T cfg calls readings).2.events →
      (done.foldl (Block.observe T) .atReset).obeyed = true ∧
      ∃ k, (done.foldl (Block.observe T) .atReset).settings = wanted (calls.take k) .reset) ∧
    ((runCalls T cfg calls readings).1 = some ⟨⟩ →
      ((runCalls T cfg calls readings).2.events.foldl (Block.observe T) .atReset).settings =
        wanted calls .reset ∧
      settingsOf T (runCalls T cfg calls readings).2.file = wanted calls .reset ∧
      configMode T (runCalls T cfg calls readings).2.file = false) ∧
    (4 * calls.length ≤ (readings.countP fun v => v.testBit 3 && v.testBit 5) →
      (runCalls T cfg calls readings).1 = some ⟨⟩) := by
  have htriple := @calls_triple T cfg (fun x => ∃ k, x = wanted (calls.take k) .reset) .atReset
    .reset calls fun k => ⟨k, rfl⟩
  have hstart : (monitor T fun x => ∃ k, x = wanted (calls.take k) .reset).Watched .atReset
      (Known T .reset false false fun f => settingsOf T f = .reset) (.atReset readings) :=
    ⟨BusMonitor.goodAlong_nil ⟨rfl, 0, rfl⟩, known_atReset T⟩
  have hrun := htriple _ hstart
  have hreturns := @calls_prompt T cfg calls (.atReset readings)
  have hresult : runCalls T cfg calls readings =
    calls.forM (Call.run T cfg) (.atReset readings) := rfl
  rw [← hresult] at hrun hreturns
  generalize runCalls T cfg calls readings = run at hrun hreturns ⊢
  obtain ⟨result, s⟩ := run
  cases result with
  | none =>
      exact ⟨hrun, fun h => absurd h (Option.some_ne_none _).symm,
        fun henough => (hreturns (ShownInTurn.replicate henough)).elim⟩
  | some _ =>
      exact ⟨hrun.along, fun _ => ⟨hrun.known.settings, hrun.known.contents, hrun.known.mode⟩,
        fun _ => rfl⟩

end F1.Rtc

end OpenMptl
