/-
Output pins that are used from several threads.  Setting and resetting a pin is one store
to a register of which only the ones count, so that the other pins of the port keep their
levels; a toggle reads the pin first and stores later.
-/
import OpenMptl.ChipSelect
import OpenMptl.SharedCells

namespace OpenMptl

universe u

/-- The two families of GPIO ports. -/
inductive GpioFamily
  | f1
  | f4
deriving DecidableEq, Repr

/-- The registers of a port that are only written. -/
inductive GpioReg
  | bsrr
  | brr
deriving DecidableEq, Repr

/-- What a store makes of the output data.  The upper half of BSRR resets, and a pin that
is named in both halves is set; BRR has no upper half. -/
def GpioReg.store (r : GpioReg) (value : BitVec 32) (odr : BitVec 16) : BitVec 16 :=
  match r with
  | .bsrr => (odr &&& ~~~value.extractLsb' 16 16) ||| value.extractLsb' 0 16
  | .brr => odr &&& ~~~value.extractLsb' 0 16

namespace Gpio

variable (pin : Gpio) (family : GpioFamily)

/-- `pin_mask` -/
def pinMaskWord : BitVec 32 := 1#32 <<< pin.pinNo.val

/-- The register that `gpio<>::set()` stores to, and the value. -/
def setStore (_family : GpioFamily) : GpioReg × BitVec 32 := (.bsrr, pin.pinMaskWord)

/-- The store of `gpio<>::reset()`. -/
def resetStore : GpioFamily → GpioReg × BitVec 32
  | .f1 => (.brr, pin.pinMaskWord)
  | .f4 => (.bsrr, pin.pinMaskWord <<< 16)

/-- `read_input_bit()`, from the content of IDR. -/
def readInputBit (idr : BitVec 32) : BitVec 32 := idr &&& pin.pinMaskWord

/-- `read_output_bit()` -/
def readOutputBit (odr : OutputLatches) : BitVec 32 :=
  (odr pin.port).setWidth 32 &&& pin.pinMaskWord

/-- The content of ODR after `set()` or `reset()`. -/
def latchAfter (level : Bool) (latch : BitVec 16) : BitVec 16 :=
  let access := if level then pin.setStore family else pin.resetStore family
  access.1.store access.2 latch

/-- `set()` or `reset()`, on the ports. -/
def storeLevel (level : Bool) (odr : OutputLatches) : OutputLatches :=
  Function.update odr pin.port (pin.latchAfter family level (odr pin.port))

end Gpio

inductive GpioActiveState
  | low
  | high
deriving DecidableEq, Repr

/-- What a call of `gpio<>` or of `gpio_output_base<>::toggle()` does to a level. -/
inductive PinCall
  | set
  | reset
  | toggle
deriving DecidableEq, Repr

def PinCall.apply : PinCall → Bool → Bool
  | .set, _ => true
  | .reset, _ => false
  | .toggle, level => !level

/-- The functions of `gpio_output_base<>` and `gpio_led_base<>` that write. -/
inductive OutputCall
  | enable
  | disable
  | toggle
  | on
  | off
deriving DecidableEq, Repr

namespace OutputCall

/-- The body of `enable()`. -/
def enableCall (activeState : GpioActiveState) : PinCall :=
  if activeState = .low then .reset else .set

/-- The body of `disable()`. -/
def disableCall (activeState : GpioActiveState) : PinCall :=
  if activeState = .low then .set else .reset

def pinCall (activeState : GpioActiveState) : OutputCall → PinCall
  | .enable => enableCall activeState
  | .disable => disableCall activeState
  | .toggle => .toggle
  | .on => enableCall activeState
  | .off => disableCall activeState

/-- What the caller expects of the output. -/
def apply : OutputCall → Bool → Bool
  | .enable, _ => true
  | .disable, _ => false
  | .toggle, active => !active
  | .on, _ => true
  | .off, _ => false

end OutputCall

/-- The type `gpio_output<port, pin_no, active_state>`. -/
structure GpioOutput where
  pin : Gpio
  activeState : GpioActiveState
deriving DecidableEq

/-- `latched()` -/
def GpioOutput.latched (out : GpioOutput) (odr : OutputLatches) : Bool :=
  let output := out.pin.readOutputBit odr != 0
  if out.activeState = .low then !output else output

/-- A call that has reached its port, and the level that it has stored there. -/
structure PinStore where
  output : GpioOutput
  call : OutputCall
  level : Bool
deriving DecidableEq

/-- `toggling` is the pin that a thread has read, with the bit. -/
structure GpioSystem (τ : Type u) where
  odr : OutputLatches
  toggling : τ → Option (GpioOutput × BitVec 32)
  log : List PinStore

namespace GpioSystem

variable {τ : Type u} [DecidableEq τ]

def Initial (odr : OutputLatches) (s : GpioSystem τ) : Prop :=
  s.odr = odr ∧ (∀ t, s.toggling t = none) ∧ s.log = []

/-- One access to a port by one of the threads; an output pin shows its latch when it is
read. -/
inductive Step (family : GpioFamily) : GpioSystem τ → GpioSystem τ → Prop
  | store (s : GpioSystem τ) (t : τ) (out : GpioOutput) (call : OutputCall) (level : Bool)
      (hidle : s.toggling t = none)
      (hcall : call.pinCall out.activeState = if level then .set else .reset) :
      Step family s
        { s with
          odr := out.pin.storeLevel family level s.odr
          log := s.log ++ [⟨out, call, level⟩] }
  | readInput (s : GpioSystem τ) (t : τ) (out : GpioOutput) (idr : BitVec 32)
      (hidle : s.toggling t = none)
      (hidr : idr.getLsbD out.pin.pinNo = s.odr.level out.pin) :
      Step family s
        { s with
          toggling := Function.update s.toggling t (some (out, out.pin.readInputBit idr)) }
  | toggle (s : GpioSystem τ) (t : τ) (out : GpioOutput) (input : BitVec 32)
      (htoggling : s.toggling t = some (out, input)) :
      Step family s
        { odr := out.pin.storeLevel family (!(input != 0)) s.odr
          toggling := Function.update s.toggling t none
          log := s.log ++ [⟨out, .toggle, !(input != 0)⟩] }

/-- As long as a thread stands between the two accesses of a toggle of the pin, the pin
does not change. -/
def Undisturbed (pin : Gpio) (s s' : GpioSystem τ) : Prop :=
  ∀ t out input, s.toggling t = some (out, input) → out.pin = pin →
    s'.toggling t = s.toggling t → s'.odr.level pin = s.odr.level pin

end GpioSystem

/-- Ports with the same levels are the same. -/
theorem OutputLatches.ext_level {odr odr' : OutputLatches}
    (h : ∀ pin, odr.level pin = odr'.level pin) : odr = odr' := by
  funext port
  apply BitVec.eq_of_getLsbD_eq
  intro i hi
  exact h ⟨port, i, hi⟩

namespace GpioReg

theorem getLsbD_store_bsrr (value : BitVec 32) (odr : BitVec 16) (i : Fin 16) :
    (GpioReg.bsrr.store value odr).getLsbD i =
      ((odr.getLsbD i && !value.getLsbD (16 + i)) || value.getLsbD i) := by
  have hi := i.isLt
  simp [store, hi]

theorem getLsbD_store_brr (value : BitVec 32) (odr : BitVec 16) (i : Fin 16) :
    (GpioReg.brr.store value odr).getLsbD i = (odr.getLsbD i && !value.getLsbD i) := by
  have hi := i.isLt
  simp [store, hi]

end GpioReg

namespace Gpio

theorem getLsbD_pinMaskWord (pin : Gpio) {i : Nat} (hi : i < 32) :
    pin.pinMaskWord.getLsbD i = decide (i = pin.pinNo) := by
  have hpin := pin.pinNo.isLt
  simp only [pinMaskWord, BitVec.getLsbD_shiftLeft, BitVec.getLsbD_one, hi, decide_true,
    Bool.true_and]
  by_cases heq : i = pin.pinNo
  · simp [heq]
  · simp only [heq, decide_false, Bool.and_eq_false_imp, Bool.not_eq_eq_eq_not, Bool.not_true,
      decide_eq_false_iff_not]
    omega

/-- Only the addressed pin changes, in either family. -/
theorem getLsbD_latchAfter (pin : Gpio) (family : GpioFamily) (level : Bool)
    (latch : BitVec 16) (i : Fin 16) :
    (pin.latchAfter family level latch).getLsbD i =
      if i = pin.pinNo then level else latch.getLsbD i := by
  have hi := i.isLt
  have hpin := pin.pinNo.isLt
  have hlow : pin.pinMaskWord.getLsbD i = decide (i = pin.pinNo) := by
    rw [getLsbD_pinMaskWord pin (by omega), decide_eq_decide, Fin.ext_iff]
  have hhigh : pin.pinMaskWord.getLsbD (16 + i) = false := by
    rw [getLsbD_pinMaskWord pin (by omega), decide_eq_false_iff_not]
    omega
  have hshiftHigh : (pin.pinMaskWord <<< 16).getLsbD (16 + i) = decide (i = pin.pinNo) := by
    rw [BitVec.getLsbD_shiftLeft, Nat.add_sub_cancel_left, hlow]
    simp
    omega
  have hshiftLow : (pin.pinMaskWord <<< 16).getLsbD i = false := by
    simp [BitVec.getLsbD_shiftLeft, hi]
  cases level with
  | true =>
      change (GpioReg.bsrr.store pin.pinMaskWord latch).getLsbD i = _
      rw [GpioReg.getLsbD_store_bsrr, hhigh, hlow]
      by_cases h : i = pin.pinNo <;> simp [h]
  | false =>
      cases family with
      | f1 =>
          change (GpioReg.brr.store pin.pinMaskWord latch).getLsbD i = _
          rw [GpioReg.getLsbD_store_brr, hlow]
          by_cases h : i = pin.pinNo <;> simp [h]
      | f4 =>
          change (GpioReg.bsrr.store (pin.pinMaskWord <<< 16) latch).getLsbD i = _
          rw [GpioReg.getLsbD_store_bsrr, hshiftHigh, hshiftLow]
          by_cases h : i = pin.pinNo <;> simp [h]

theorem level_storeLevel (family : GpioFamily) (level : Bool) (odr : OutputLatches)
    (pin other : Gpio) :
    (pin.storeLevel family level odr).level other =
      if other = pin then level else odr.level other :=
  level_update odr pin other (getLsbD_latchAfter pin family level (odr pin.port))

theorem readInputBit_ne_zero (pin : Gpio) (idr : BitVec 32) :
    (pin.readInputBit idr != 0) = idr.getLsbD pin.pinNo := by
  have hpin := pin.pinNo.isLt
  have hbit : ∀ i < 32, (pin.readInputBit idr).getLsbD i =
      (idr.getLsbD i && decide (i = pin.pinNo)) := by
    intro i hi
    rw [readInputBit, BitVec.getLsbD_and, getLsbD_pinMaskWord pin hi]
  cases hinput : idr.getLsbD pin.pinNo with
  | true =>
      have hset := hbit pin.pinNo (by omega)
      rw [hinput, Bool.true_and, decide_eq_true rfl] at hset
      refine bne_iff_ne.mpr fun hzero => ?_
      rw [hzero] at hset
      simp at hset
  | false =>
      refine bne_eq_false_iff_eq.mpr (BitVec.eq_of_getLsbD_eq fun i hi => ?_)
      rw [hbit i hi]
      by_cases h : i = pin.pinNo
      · simp [h, hinput]
      · simp [h]

/-- `read_output_bit()` shows the latch. -/
theorem readOutputBit_ne_zero (pin : Gpio) (odr : OutputLatches) :
    (pin.readOutputBit odr != 0) = odr.level pin := by
  have hpin := pin.pinNo.isLt
  have hread : pin.readOutputBit odr = pin.readInputBit ((odr pin.port).setWidth 32) := rfl
  rw [hread, readInputBit_ne_zero, BitVec.getLsbD_setWidth, decide_eq_true (by omega),
    Bool.true_and, OutputLatches.level]

/-- The drivers of the shared bus move their pins in this way. -/
theorem set_eq_storeLevel (pin : Gpio) (family : GpioFamily) (s : Board) :
    pin.set s = (some ⟨⟩, { s with odr := pin.storeLevel family true s.odr }) := by
  have hodr : Function.update s.odr pin.port (s.odr pin.port ||| pin.pinMask) =
      pin.storeLevel family true s.odr :=
    OutputLatches.ext_level fun other => by rw [level_set, level_storeLevel]
  rw [set, Waiting.modify, hodr]

theorem reset_eq_storeLevel (pin : Gpio) (family : GpioFamily) (s : Board) :
    pin.reset s = (some ⟨⟩, { s with odr := pin.storeLevel family false s.odr }) := by
  have hodr : Function.update s.odr pin.port (s.odr pin.port &&& ~~~pin.pinMask) =
      pin.storeLevel family false s.odr :=
    OutputLatches.ext_level fun other => by rw [level_reset, level_storeLevel]
  rw [reset, Waiting.modify, hodr]

end Gpio

namespace GpioSystem

variable {τ : Type u}

/-- What a thread has read of its pin. -/
def loadedLevel (p : GpioOutput × BitVec 32) : Gpio × PinCall × Bool :=
  (p.1.pin, .toggle, p.2 != 0)

/-- A call on an output as a call on its pin. -/
def loggedCall (e : PinStore) : Gpio × PinCall × Bool :=
  (e.output.pin, e.call.pinCall e.output.activeState, e.level)

/-- The levels of the pins, and what the threads have read of them. -/
def cells (s : GpioSystem τ) : SharedCells.State τ Gpio Bool PinCall where
  cell := s.odr.level
  loaded t := (s.toggling t).map loadedLevel
  log := s.log.map loggedCall

theorem cells_loaded_of_idle {s : GpioSystem τ} {t : τ} (h : s.toggling t = none) :
    s.cells.loaded t = none := by
  change (s.toggling t).map loadedLevel = none
  rw [h, Option.map_none]

theorem Initial.cells {odr : OutputLatches} {s : GpioSystem τ} (h : Initial odr s) :
    SharedCells.Initial odr.level s.cells := by
  obtain ⟨rfl, htoggling, hlog⟩ := h
  exact ⟨rfl, fun t => cells_loaded_of_idle (htoggling t), congrArg (List.map loggedCall) hlog⟩

variable [DecidableEq τ] {family : GpioFamily} {odr : OutputLatches} {s s' : GpioSystem τ}

theorem map_update_toggling (s : GpioSystem τ) (t : τ) (x : Option (GpioOutput × BitVec 32)) :
    (fun t' => (Function.update s.toggling t x t').map loadedLevel) =
      Function.update s.cells.loaded t (x.map loadedLevel) := by
  funext t'
  exact Function.apply_update (fun _ => Option.map loadedLevel) s.toggling t x t'

theorem level_storeLevel_eq_update (family : GpioFamily) (level : Bool) (odr : OutputLatches)
    (pin : Gpio) :
    (pin.storeLevel family level odr).level = Function.update odr.level pin level := by
  funext other
  rw [Gpio.level_storeLevel, Function.update_apply]

theorem apply_pinCall {call : PinCall} {level : Bool}
    (h : call = if level then .set else .reset) (a : Bool) : call.apply a = level := by
  subst h
  cases level <;> rfl

/-- Each access is a step of the shared cells. -/
theorem Step.cells (h : Step family s s') :
    SharedCells.Step PinCall.apply s.cells s'.cells := by
  cases h with
  | store t out call level hidle hcall =>
      have hstep : SharedCells.Step PinCall.apply s.cells _ :=
        .store s.cells t out.pin (call.pinCall out.activeState) level
          (cells_loaded_of_idle hidle) (apply_pinCall hcall)
      simp only [GpioSystem.cells, level_storeLevel_eq_update, List.map_append]
      exact hstep
  | readInput t out idr hidle hidr =>
      have hstep : SharedCells.Step PinCall.apply s.cells _ :=
        .load s.cells t out.pin .toggle (cells_loaded_of_idle hidle)
      have hread : loadedLevel (out, out.pin.readInputBit idr) =
          (out.pin, .toggle, s.cells.cell out.pin) := by
        rw [loadedLevel, Gpio.readInputBit_ne_zero, hidr]
        rfl
      have hloaded := map_update_toggling s t (some (out, out.pin.readInputBit idr))
      rw [Option.map_some, hread] at hloaded
      rw [← hloaded] at hstep
      exact hstep
  | toggle t out input htoggling =>
      have hstep : SharedCells.Step PinCall.apply s.cells _ :=
        .storeBack s.cells t out.pin .toggle (input != 0)
          (congrArg (Option.map loadedLevel) htoggling)
      have hloaded := map_update_toggling s t none
      rw [Option.map_none] at hloaded
      rw [← hloaded] at hstep
      simp only [GpioSystem.cells, level_storeLevel_eq_update, List.map_append]
      exact hstep

/-- What a step shows of a thread that goes on toggling, is on the cells. -/
theorem Step.undisturbed_cells (h : Step family s s') {pin : Gpio}
    (hpin : Undisturbed pin s s') : SharedCells.Undisturbed pin s.cells s'.cells := by
  intro t call level hloaded hkept
  obtain ⟨⟨out, input⟩, htoggling, hloadedLevel⟩ := Option.map_eq_some_iff.mp hloaded
  refine hpin t out input htoggling (congrArg Prod.fst hloadedLevel) ?_
  -- a thread that is in a toggle keeps it, or ends it
  cases h with
  | store => rfl
  | readInput t' out' idr hidle =>
      refine Function.update_of_ne ?_ _ _
      rintro rfl
      rw [hidle] at htoggling
      cases htoggling
  | toggle t' out' input' htoggling' =>
      refine Function.update_of_ne ?_ _ _
      rintro rfl
      have hnone : (GpioSystem.cells { s with
          toggling := Function.update s.toggling t none }).loaded t = none :=
        cells_loaded_of_idle (Function.update_self _ _ _)
      exact absurd (hnone.symm.trans (hkept.trans hloaded)) (by simp)

/-- The calls on a pin, as the cells log them. -/
theorem along_cells (f : PinCall × Bool → Bool → Bool) (log : List PinStore) (pin : Gpio)
    (level : Bool) :
    SharedCells.along f (log.map loggedCall) pin level =
      (log.filter fun e => decide (e.output.pin = pin)).foldl
        (fun a e => f (e.call.pinCall e.output.activeState, e.level) a) level := by
  rw [SharedCells.along, List.filter_map, List.foldl_map]
  rfl

/-- A pin has the level that the last call on it has stored. -/
theorem level_eq_last (h : Reachable (Initial odr) (Step family) s) (pin : Gpio) :
    s.odr.level pin = (s.log.filter fun e => decide (e.output.pin = pin)).foldl
      (fun _ e => e.level) (odr.level pin) := by
  have hcells : Reachable (SharedCells.Initial odr.level) (SharedCells.Step PinCall.apply)
      s.cells :=
    h.simulation GpioSystem.cells (fun _ _ => trivial) (fun _ hinit => hinit.cells)
      fun _ _ _ hstep => .single hstep.cells
  exact (SharedCells.cell_eq_last hcells pin).trans (along_cells _ _ _ _)

/-- A pin that nobody changes in the middle of a toggle has the level that the finished
calls on it leave. -/
theorem level_eq_foldl {pin : Gpio}
    (h : Reachable (Initial odr) (fun s s' => Step family s s' ∧ Undisturbed pin s s') s) :
    s.odr.level pin = (s.log.filter fun e => decide (e.output.pin = pin)).foldl
      (fun level e => (e.call.pinCall e.output.activeState).apply level) (odr.level pin) := by
  have hcells : Reachable (SharedCells.Initial odr.level)
      (fun s s' => SharedCells.Step PinCall.apply s s' ∧ SharedCells.Undisturbed pin s s')
      s.cells :=
    h.simulation GpioSystem.cells (fun _ _ => trivial) (fun _ hinit => hinit.cells)
      fun _ _ _ hstep => .single ⟨hstep.1.cells, hstep.1.undisturbed_cells hstep.2⟩
  exact (SharedCells.reachable_current hcells).sequential.trans (along_cells _ _ _ _)

/-- The drivers of the shared bus move their pins with calls of this kind. -/
theorem step_set (t : τ) (pin : Gpio) (b : Board) (hodr : b.odr = s.odr)
    (hidle : s.toggling t = none) :
    Step family s { s with
      odr := (pin.set b).2.odr
      log := s.log ++ [⟨⟨pin, .high⟩, .enable, true⟩] } := by
  rw [Gpio.set_eq_storeLevel pin family b, hodr]
  exact .store s t ⟨pin, .high⟩ .enable true hidle rfl

theorem step_reset (t : τ) (pin : Gpio) (b : Board) (hodr : b.odr = s.odr)
    (hidle : s.toggling t = none) :
    Step family s { s with
      odr := (pin.reset b).2.odr
      log := s.log ++ [⟨⟨pin, .high⟩, .disable, false⟩] } := by
  rw [Gpio.reset_eq_storeLevel pin family b, hodr]
  exact .store s t ⟨pin, .high⟩ .disable false hidle rfl

end GpioSystem

namespace GpioOutput

variable (out : GpioOutput)

/-- The level of a pin, as the output shows it. -/
def shown (level : Bool) : Bool := if out.activeState = .low then !level else level

theorem latched_eq (odr : OutputLatches) : out.latched odr = out.shown (odr.level out.pin) := by
  rw [latched, Gpio.readOutputBit_ne_zero, shown]

/-- The calls do what their names say, on either active state. -/
theorem shown_apply (call : OutputCall) (level : Bool) :
    out.shown ((call.pinCall out.activeState).apply level) = call.apply (out.shown level) := by
  obtain ⟨pin, activeState⟩ := out
  cases activeState <;> cases call <;> rfl

theorem shown_foldl (calls : List PinStore) (h : ∀ e ∈ calls, e.output = out) (level : Bool) :
    out.shown (calls.foldl (fun l e => (e.call.pinCall e.output.activeState).apply l) level) =
      calls.foldl (fun a e => e.call.apply a) (out.shown level) := by
  induction calls generalizing level with
  | nil => rfl
  | cons e calls ih =>
      have he : e.output = out := h e List.mem_cons_self
      rw [List.foldl_cons, List.foldl_cons,
        ih (fun e' he' => h e' (List.mem_cons_of_mem e he')), he, shown_apply]

end GpioOutput

namespace GpioPortTest

/-- The main program and the interrupt of the clock. -/
inductive Thread
  | run
  | rtcIsr
deriving DecidableEq

def led : GpioOutput := ⟨Kernel.led, .low⟩

def lcdReset : GpioOutput := ⟨Kernel.lcd.lcdReset, .high⟩

/-- The steps under which no toggle of either pin loses its update. -/
def QuietStep (s s' : GpioSystem Thread) : Prop :=
  GpioSystem.Step .f1 s s' ∧ ∀ out ∈ [led, lcdReset], GpioSystem.Undisturbed out.pin s s'

/-- Nobody but the toggling thread changes the LED. -/
theorem undisturbed_of_led {s s' : GpioSystem Thread}
    (htoggling : ∀ t p, s.toggling t = some p → p.1 = led)
    (hled : s'.odr.level led.pin = s.odr.level led.pin) (out : GpioOutput) :
    GpioSystem.Undisturbed out.pin s s' := by
  intro t other input hsome hpin _
  have hother : other = led := htoggling t _ hsome
  rw [← hpin, hother]
  exact hled

def board : Board := Kernel.afterReset [] fun _ => 0

/-- The interrupt has read the pin of the LED when the main program moves another pin of
the same port, as the driver of the display does. -/
theorem run_between : ∃ s : GpioSystem Thread,
    Reachable (GpioSystem.Initial fun _ => 0) QuietStep s ∧
      s.log = [⟨lcdReset, .enable, true⟩, ⟨lcdReset, .disable, false⟩, ⟨led, .toggle, true⟩] := by
  have hstart : Reachable (GpioSystem.Initial fun _ => 0) QuietStep
      ⟨fun _ => 0, fun _ => none, []⟩ := .start ⟨rfl, fun _ => rfl, rfl⟩
  have hread := hstart.next ⟨.readInput _ .rtcIsr led 0 rfl rfl, fun _ _ _ _ _ h => (nomatch h)⟩
  have hled : ∀ t p, Function.update (fun _ => none) Thread.rtcIsr
      (some (led, led.pin.readInputBit 0)) t = some p → p.1 = led := by
    intro t p hsome
    cases t with
    | run => cases hsome
    | rtcIsr => exact (congrArg Prod.fst (Option.some.inj hsome)).symm
  have hset := hread.next ⟨GpioSystem.step_set .run Kernel.lcd.lcdReset board rfl rfl,
    fun out _ => undisturbed_of_led hled (by rfl) out⟩
  have hreset := hset.next ⟨GpioSystem.step_reset .run Kernel.lcd.lcdReset
    (Kernel.lcd.lcdReset.set board).2 rfl rfl, fun out _ => undisturbed_of_led hled (by rfl) out⟩
  refine ⟨_, hreset.next ⟨.toggle _ .rtcIsr led _ rfl, ?_⟩, rfl⟩
  intro out _ t other input htoggling _ hkept
  cases t with
  | run => cases htoggling
  | rtcIsr => exact absurd (hkept.trans htoggling) (by simp)

end GpioPortTest

end OpenMptl
