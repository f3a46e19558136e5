/-
The pins of the STM32F1.  A resource list names the clocks of the ports and the traits of
the pins; the lists of several drivers are joined, and the start-up code resets all of their
registers once, on peripherals whose clocks are off until then.
-/
import OpenMptl.ClockGate
import OpenMptl.RccWait

namespace OpenMptl

open Patch

namespace F1

inductive Port
  | a
  | b
  | c
  | d
  | e
deriving DecidableEq, Repr

/-- `gpio_no` -/
def Port.gpioNo : Port → Nat
  | .a => 0
  | .b => 1
  | .c => 2
  | .d => 3
  | .e => 4

/-- The type `gpio<port, pin_no>`. -/
structure Pin where
  port : Port
  pinNo : Fin 16
deriving DecidableEq

/-! The clocks. -/

def apb2enr : Reg := ⟨.uint32, rccBaseAddr + 0x18, .rw, 0, ValueType.two_pow_width_pos _⟩

def apb1enr : Reg := ⟨.uint32, rccBaseAddr + 0x1c, .rw, 0, ValueType.two_pow_width_pos _⟩

/-- The peripherals with a clock resource. -/
inductive Peripheral
  | gpio (port : Port)
  | adc1
  | adc2
  | spi1
  | spi2
  | usart1
  | usart2
  | usart3
  | pwr
  | bkp
deriving DecidableEq, Repr

namespace Peripheral

/-- The specialisations of `rcc_*_clock_resources`. -/
def enable : Peripheral → Reg × Nat
  | .gpio port => (apb2enr, 2 + port.gpioNo)
  | .adc1 => (apb2enr, 9)
  | .adc2 => (apb2enr, 10)
  | .spi1 => (apb2enr, 12)
  | .spi2 => (apb1enr, 14)
  | .usart1 => (apb2enr, 14)
  | .usart2 => (apb1enr, 17)
  | .usart3 => (apb1enr, 18)
  | .pwr => (apb1enr, 28)
  | .bkp => (apb1enr, 27)

def baseAddr : Peripheral → Nat
  | .gpio port => 0x40010800 + port.gpioNo * 0x0400
  | .adc1 => 0x40012400
  | .adc2 => 0x40012800
  | .spi1 => 0x40013000
  | .spi2 => 0x40003800
  | .usart1 => 0x40013800
  | .usart2 => 0x40004400
  | .usart3 => 0x40004800
  | .pwr => 0x40007000
  | .bkp => 0x40006c00

def all : List Peripheral :=
  [.gpio .a, .gpio .b, .gpio .c, .gpio .d, .gpio .e, .adc1, .adc2, .spi1, .spi2, .usart1,
    .usart2, .usart3, .pwr, .bkp]

/-- The peripheral of a register; each has a block of 1 KiB. -/
def ofReg (r : Reg) : Option Peripheral :=
  all.find? fun p => p.baseAddr / 0x400 == r.addr / 0x400

end Peripheral

theorem ofReg_enable (p : Peripheral) : Peripheral.ofReg p.enable.1 = none := by
  cases p with
  | gpio port => cases port <;> rfl
  | adc1 | adc2 | spi1 | spi2 | usart1 | usart2 | usart3 | pwr | bkp => rfl

/-- A peripheral works when its bit is set in the clock enable register. -/
def gates : ClockGates where
  gate r := (Peripheral.ofReg r).map Peripheral.enable
  ungated := by
    intro r e i h
    obtain ⟨p, -, henable⟩ := Option.map_eq_some_iff.mp h
    have he : e = p.enable.1 := congrArg Prod.fst henable.symm
    rw [he, ofReg_enable]
    rfl

/-! The fields of a pin. -/

theorem crReset_lt : 0x44444444 < 2 ^ ValueType.uint32.width := by decide

/-- `GPIO<port>::CRL` or `CRH` -/
def crx (pin : Pin) : Reg :=
  ⟨.uint32, (Peripheral.gpio pin.port).baseAddr + if pin.pinNo.val < 8 then 0x00 else 0x04, .rw,
    0x44444444, crReset_lt⟩

inductive PinField
  | mode
  | cnf
deriving DecidableEq, Repr

def PinField.offset (pin : Pin) : PinField → Nat
  | .mode => pin.pinNo.val % 8 * 4
  | .cnf => pin.pinNo.val % 8 * 4 + 2

/-- Input mode, floating. -/
def PinField.resetValue : PinField → Nat
  | .mode => 0
  | .cnf => 1

theorem pinField_fits (pin : Pin) (f : PinField) :
    1 ≤ 2 ∧ f.offset pin + 2 ≤ (crx pin).width ∧ f.offset pin < 32 ∧ 2 < 32 := by
  have hlt : pin.pinNo.val % 8 < 8 := Nat.mod_lt _ (by decide)
  have hwidth : (crx pin).width = 32 := rfl
  cases f <;> simp only [PinField.offset] <;> omega

inductive Speed
  | mhz10
  | mhz2
  | mhz50
deriving DecidableEq, Repr

/-- The traits in `mode`, `input_type` and `output_type`. -/
inductive PinTrait
  | input
  | output (speed : Speed)
  | analog
  | floating
  | pullUpDown
  | pushPull
  | openDrain
  | afPushPull
  | afOpenDrain
deriving DecidableEq, Repr

namespace PinTrait

def field : PinTrait → PinField
  | .input | .output _ => .mode
  | .analog | .floating | .pullUpDown | .pushPull | .openDrain | .afPushPull | .afOpenDrain =>
      .cnf

def value : PinTrait → Nat
  | .input => 0
  | .output .mhz10 => 1
  | .output .mhz2 => 2
  | .output .mhz50 => 3
  | .analog => 0
  | .floating => 1
  | .pullUpDown => 2
  | .pushPull => 0
  | .openDrain => 1
  | .afPushPull => 2
  | .afOpenDrain => 3

end PinTrait

section Items

variable (T : Target)

def pinField (pin : Pin) (f : PinField) : Regbits T :=
  .ofLow T (crx pin) (f.offset pin) 2 (pinField_fits pin f)

theorem enable_fits (p : Peripheral) :
    1 ≤ 1 ∧ p.enable.2 + 1 ≤ p.enable.1.width ∧ p.enable.2 < 32 ∧ 1 < 32 := by
  cases p with
  | gpio port => cases port <;> exact ⟨le_rfl, by decide, by decide, by decide⟩
  | adc1 | adc2 | spi1 | spi2 | usart1 | usart2 | usart3 | pwr | bkp =>
      exact ⟨le_rfl, by decide, by decide, by decide⟩

/-- The bit of a clock resource. -/
def enableBit (p : Peripheral) : Regbits T := .ofLow T p.enable.1 p.enable.2 1 (enable_fits p)

theorem pinField_whole (pin : Pin) (f : PinField) :
    (pinField T pin f).maskWidth = (pinField T pin f).width :=
  (pinField T pin f).maskWidth_eq T.ulongWidth_ge

/-- The constant of a trait. -/
def PinTrait.fieldValue (pin : Pin) (t : PinTrait) : FieldValue T :=
  (pinField T pin t.field, t.value)

theorem PinTrait.value_lt (t : PinTrait) : t.value < 2 ^ 2 := by
  cases t with
  | output speed => cases speed <;> decide
  | input | analog | floating | pullUpDown | pushPull | openDrain | afPushPull | afOpenDrain =>
      decide

def PinTrait.regval (pin : Pin) (t : PinTrait) : Regval T :=
  .ofField (pinField T pin t.field) (pinField_whole T pin t.field) t.value t.value_lt

end Items

/-! Resource lists. -/

/-- An element of a resource list; besides clocks and pins a list has masks on registers of
the peripherals. -/
inductive Resource
  | clock (p : Peripheral)
  | trait (pin : Pin) (t : PinTrait)
  | config (t : RegmaskType)

namespace Resource

def mask (T : Target) : Resource → RegmaskType
  | .clock p => (enableBit T p).toRegmaskType
  | .trait pin t => (t.regval T pin).toRegmaskType
  | .config t => t

/-- The peripheral with the register of the element. -/
def needs : Resource → Option Peripheral
  | .clock _ => none
  | .trait pin _ => some (.gpio pin.port)
  | .config t => Peripheral.ofReg t.reg

/-- Each element comes after the clock that it needs. -/
def Clocked (xs : List Resource) : Prop :=
  ∀ before x after, xs = before ++ x :: after → ∀ p, x.needs = some p → .clock p ∈ before

/-- A register that the lists of several drivers share. -/
def Shared (r : Reg) : Prop := (∃ p : Peripheral, r = p.enable.1) ∨ ∃ pin, r = crx pin

theorem clocked_nil : Clocked [] := by
  intro before x after h
  cases before <;> cases h

theorem Clocked.extend {xs ys : List Resource} (h : Clocked xs)
    (hys : ∀ y ∈ ys, ∀ p, y.needs = some p → .clock p ∈ xs) : Clocked (xs ++ ys) := by
  intro before x after hsplit p hp
  rcases List.append_eq_append_iff.mp hsplit with ⟨more, rfl, hmore⟩ | ⟨more, rfl, hmore⟩
  · refine List.mem_append_left more (hys x ?_ p hp)
    rw [hmore]
    exact List.mem_append_right more List.mem_cons_self
  · cases more with
    | nil =>
        have hmem : x ∈ [] ++ ys := hmore ▸ List.mem_cons_self
        exact List.append_nil before ▸ hys x hmem p hp
    | cons y more =>
        obtain ⟨rfl, -⟩ := List.cons.inj hmore
        exact h before x more rfl p hp

theorem Clocked.append {xs ys : List Resource} (hx : Clocked xs) (hy : Clocked ys) :
    Clocked (xs ++ ys) := by
  intro before x after hsplit p hp
  rcases List.append_eq_append_iff.mp hsplit with ⟨more, rfl, hmore⟩ | ⟨more, rfl, hmore⟩
  · exact List.mem_append_right xs (hy more x after hmore p hp)
  · cases more with
    | nil => cases hy [] x after hmore.symm p hp
    | cons y more =>
        obtain ⟨rfl, -⟩ := List.cons.inj hmore
        exact hx before x more rfl p hp

end Resource

/-- A resource list as the drivers write them. -/
structure Resources where
  items : List Resource
  clocked : Resource.Clocked items
  own : ∀ t, .config t ∈ items → ¬ Resource.Shared t.reg

namespace Resources

def clock (p : Peripheral) : Resources where
  items := [.clock p]
  clocked := by
    refine @Resource.Clocked.extend [] [.clock p] Resource.clocked_nil fun y hy q hq => ?_
    obtain rfl := List.mem_singleton.mp hy
    cases hq
  own := by
    intro t ht
    cases List.mem_singleton.mp ht

/-- The clock of the port, and traits of the pin. -/
def pin (pin : Pin) (traits : List PinTrait) : Resources where
  items := (clock (.gpio pin.port)).items ++ traits.map (.trait pin)
  clocked := by
    refine (clock (.gpio pin.port)).clocked.extend fun y hy q hq => ?_
    obtain ⟨t, -, rfl⟩ := List.mem_map.mp hy
    obtain rfl := Option.some.inj hq
    exact List.mem_singleton.mpr rfl
  own := by
    intro t ht
    rcases List.mem_append.mp ht with ht | ht
    · exact (clock (.gpio pin.port)).own t ht
    · obtain ⟨u, -, hu⟩ := List.mem_map.mp ht
      cases hu

def append (a b : Resources) : Resources where
  items := a.items ++ b.items
  clocked := a.clocked.append b.clocked
  own := by
    intro t ht
    rcases List.mem_append.mp ht with ht | ht
    · exact a.own t ht
    · exact b.own t ht

instance : Append Resources := ⟨append⟩

/-- Followed by masks on registers whose clocks are there. -/
def configured (a : Resources) (ts : List RegmaskType)
    (h : ∀ t ∈ ts, ∀ p, Peripheral.ofReg t.reg = some p → .clock p ∈ a.items)
    (hown : ∀ t ∈ ts, ¬ Resource.Shared t.reg) : Resources where
  items := a.items ++ ts.map .config
  clocked := by
    refine a.clocked.extend fun y hy p hp => ?_
    obtain ⟨t, ht, rfl⟩ := List.mem_map.mp hy
    exact h t ht p hp
  own := by
    intro t ht
    rcases List.mem_append.mp ht with ht | ht
    · exact a.own t ht
    · obtain ⟨u, hu, huu⟩ := List.mem_map.mp ht
      cases huu
      exact hown t hu

/-- Followed by traits of pins whose ports have their clocks. -/
def withTraits (a : Resources) (xs : List (Pin × PinTrait))
    (h : ∀ x ∈ xs, .clock (.gpio x.1.port) ∈ a.items) : Resources where
  items := a.items ++ xs.map fun x => .trait x.1 x.2
  clocked := by
    refine a.clocked.extend fun y hy p hp => ?_
    obtain ⟨x, hx, rfl⟩ := List.mem_map.mp hy
    obtain rfl := Option.some.inj hp
    exact h x hx
  own := by
    intro t ht
    rcases List.mem_append.mp ht with ht | ht
    · exact a.own t ht
    · obtain ⟨x, -, hx⟩ := List.mem_map.mp ht
      cases hx

/-! The lists of the drivers. -/

/-- `gpio_input<>::resources` -/
def gpioInput (p : Pin) : Resources := pin p [.input]

/-- `gpio_output<>::resources` -/
def gpioOutput (p : Pin) (speed : Speed) : Resources := pin p [.output speed]

/-- `gpio_led<>::resources` -/
def gpioLed (p : Pin) (speed : Speed) : Resources := pin p [.output speed, .pushPull]

/-- `usart_gpio_rx_resources<>` -/
def usartGpioRx (p : Pin) : Resources := pin p [.input, .floating]

/-- `usart_gpio_tx_resources<>` -/
def usartGpioTx (p : Pin) (speed : Speed) : Resources := pin p [.output speed, .afPushPull]

/-- `spi_gpio_output_resources<>` -/
def spiGpioOutput (p : Pin) (speed : Speed) : Resources := pin p [.output speed, .afPushPull]

/-- `spi_gpio_input_resources<>` -/
def spiGpioInput (p : Pin) : Resources := pin p [.input, .pullUpDown]

/-- `usart<>::resources` -/
def usart (clockOf : Peripheral) (rx tx : Pin) (speed : Speed) : Resources :=
  clock clockOf ++ usartGpioRx rx ++ usartGpioTx tx speed

/-- `spi<>::resources` -/
def spi (clockOf : Peripheral) (sck miso mosi : Pin) (speed : Speed) : Resources :=
  clock clockOf ++ spiGpioOutput sck speed ++ spiGpioInput miso ++ spiGpioOutput mosi speed

theorem clock_mem_pin (p : Pin) (traits : List PinTrait) :
    .clock (.gpio p.port) ∈ (pin p traits).items := List.mem_cons_self

/-- Three pins after the bus of a driver, with a trait for each. -/
theorem clock_mem_driver {bus : Resources} {p q r : Pin} {s t u : PinTrait}
    {a b c : List PinTrait} (x : Pin × PinTrait) (hx : x ∈ [(p, s), (q, t), (r, u)]) :
    .clock (.gpio x.1.port) ∈ (bus ++ pin p a ++ pin q b ++ pin r c).items := by
  simp only [List.mem_cons, List.not_mem_nil, or_false] at hx
  rcases hx with rfl | rfl | rfl
  · exact List.mem_append_left _ (List.mem_append_left _
      (List.mem_append_right _ (clock_mem_pin p a)))
  · exact List.mem_append_left _ (List.mem_append_right _ (clock_mem_pin q b))
  · exact List.mem_append_right _ (clock_mem_pin r c)

/-- `nokia3310<>::resources` -/
def nokia3310 (bus : Resources) (lcdDs lcdReset lcdE : Pin) (speed : Speed) : Resources :=
  (bus ++ gpioOutput lcdDs speed ++ gpioOutput lcdReset speed ++
    gpioOutput lcdE speed).withTraits
      [(lcdDs, .pushPull), (lcdReset, .pushPull), (lcdE, .pushPull)] clock_mem_driver

/-- `nrf24l01<>::resources` -/
def nrf24l01 (bus : Resources) (nrfCe nrfCsn nrfIrq : Pin) (speed : Speed) : Resources :=
  (bus ++ gpioOutput nrfCe speed ++ gpioOutput nrfCsn speed ++
    gpioInput nrfIrq).withTraits
      [(nrfCe, .pushPull), (nrfCsn, .pushPull), (nrfIrq, .pullUpDown)] clock_mem_driver

end Resources

/-! The places of the elements. -/

theorem ofReg_crx (pin : Pin) : Peripheral.ofReg (crx pin) = some (.gpio pin.port) := by
  have hblock : (crx pin).addr / 0x400 = (Peripheral.gpio pin.port).baseAddr / 0x400 := by
    have hoffset : (if pin.pinNo.val < 8 then 0x00 else 0x04) < 0x400 := by
      split <;> decide
    change ((Peripheral.gpio pin.port).baseAddr + _) / 0x400 = _
    cases pin.port <;> simp only [Peripheral.baseAddr, Port.gpioNo] <;> omega
  rw [Peripheral.ofReg, hblock]
  cases pin.port <;> decide

theorem crx_ne_enable (pin : Pin) (p : Peripheral) : crx pin ≠ p.enable.1 := by
  intro h
  have hnone := ofReg_enable p
  rw [← h, ofReg_crx] at hnone
  cases hnone

/-- Pins on one register are of one port, and have their fields in the same order. -/
theorem eq_of_crx {pin pin' : Pin} (h : crx pin = crx pin')
    (hno : pin.pinNo.val % 8 = pin'.pinNo.val % 8) : pin = pin' := by
  have hport : pin.port = pin'.port := by
    have hsome := ofReg_crx pin
    rw [h, ofReg_crx] at hsome
    exact (Peripheral.gpio.inj (Option.some.inj hsome)).symm
  obtain ⟨port, pinNo⟩ := pin
  obtain ⟨port', pinNo'⟩ := pin'
  obtain rfl : port = port' := hport
  have haddr := congrArg Reg.addr h
  simp only [crx, Nat.add_left_cancel_iff] at haddr
  have hhalf : pinNo.val < 8 ↔ pinNo'.val < 8 := by
    split at haddr <;> split at haddr <;> omega
  have heq : pinNo = pinNo' := by
    apply Fin.ext
    simp only at hno
    omega
  rw [heq]

theorem enable_resetValue (p : Peripheral) : p.enable.1.resetValue = 0 := by
  cases p with
  | gpio port => cases port <;> rfl
  | adc1 | adc2 | spi1 | spi2 | usart1 | usart2 | usart3 | pwr | bkp => rfl

theorem enable_injective {p q : Peripheral} (h : p.enable = q.enable) : p = q := by
  have hall : ∀ p, p ∈ Peripheral.all := by
    intro p
    cases p with
    | gpio port => cases port <;> decide
    | adc1 | adc2 | spi1 | spi2 | usart1 | usart2 | usart3 | pwr | bkp => decide
  have hcheck : ∀ p ∈ Peripheral.all, ∀ q ∈ Peripheral.all, p.enable = q.enable → p = q := by
    decide
  exact hcheck p (hall p) q (hall q) h

/-- The registers inside the peripherals other than the ports are not shared. -/
theorem not_shared {r : Reg} {p : Peripheral} (h : Peripheral.ofReg r = some p)
    (hp : ∀ port, p ≠ .gpio port) : ¬ Resource.Shared r := by
  rintro (⟨q, rfl⟩ | ⟨pin, rfl⟩)
  · cases (ofReg_enable q).symm.trans h
  · exact hp pin.port (Option.some.inj (h.symm.trans (ofReg_crx pin)))

theorem fieldOf_crReset (pin : Pin) (g : PinField) :
    fieldOf (g.offset pin) 2 (crx pin).resetValue = g.resetValue := by
  have hlt : pin.pinNo.val % 8 < 8 := Nat.mod_lt _ (by decide)
  have hall : ∀ i < 8, fieldOf (i * 4) 2 0x44444444 = 0 ∧
      fieldOf (i * 4 + 2) 2 0x44444444 = 1 := by decide
  cases g with
  | mode => exact (hall _ hlt).1
  | cnf => exact (hall _ hlt).2

namespace Resource

/-- The field that an element writes; a mask of a driver is not looked into. -/
def key : Resource → Option FieldKey
  | .clock p => some ⟨p.enable.1, p.enable.2, 1⟩
  | .trait pin t => some ⟨crx pin, t.field.offset pin, 2⟩
  | .config _ => none

def constant : Resource → Nat
  | .clock _ => 1
  | .trait _ t => t.value
  | .config _ => 0

def asConfig : Resource → Option RegmaskType
  | .clock _ => none
  | .trait _ _ => none
  | .config t => some t

variable {T : Target} {x y : Resource} {k l : FieldKey}

theorem writes_mask (T : Target) (h : x.key = some k) :
    RegmaskType.Writes k x.constant (x.mask T) := by
  cases x with
  | clock p =>
      cases h
      exact @RegmaskType.Writes.of_single T (enableBit T p) rfl
  | trait pin t =>
      cases h
      have hfits : FieldValue.Fits (t.fieldValue T pin) :=
        ⟨pinField_whole T pin t.field, t.value_lt⟩
      exact .of_is (v := t.regval T pin) ⟨rfl, rfl⟩ hfits
  | config t => cases h

theorem shared_of_key (h : x.key = some k) : Shared k.reg := by
  cases x with
  | clock p =>
      cases h
      exact .inl ⟨p, rfl⟩
  | trait pin t =>
      cases h
      exact .inr ⟨pin, rfl⟩
  | config t => cases h

theorem key_cases (x : Resource) : (∃ k, x.key = some k) ∨ ∃ t, x = .config t := by
  cases x with
  | clock p => exact .inl ⟨_, rfl⟩
  | trait pin t => exact .inl ⟨_, rfl⟩
  | config t => exact .inr ⟨t, rfl⟩

/-- The fields of two pins are the same field or apart. -/
theorem pinField_eq_or_apart {pin pin' : Pin} (f g : PinField) (hreg : crx pin = crx pin') :
    pin = pin' ∧ f = g ∨
      (f.offset pin + 2 ≤ g.offset pin' ∨ g.offset pin' + 2 ≤ f.offset pin) := by
  by_cases hno : pin.pinNo.val % 8 = pin'.pinNo.val % 8
  · obtain rfl := eq_of_crx hreg hno
    by_cases hfield : f = g
    · exact .inl ⟨rfl, hfield⟩
    · right
      cases f <;> cases g <;> simp_all [PinField.offset]
  · right
    cases f <;> cases g <;> simp only [PinField.offset] <;> omega

end Resource

/-- A tree of resources is accepted when its inner lists are and its leaves agree. -/
theorem exists_makeReglist_iff {trees : List (ListTree Element)} :
    (∃ l, makeReglist trees = .ok l) ↔
      ListTree.checkAll trees = .ok () ∧
        ∀ r, AllCompatible (patches (onReg (regmaskLeaves trees) r)) := by
  constructor
  · rintro ⟨l, hl⟩
    have hcheck : ListTree.checkAll trees = .ok () := by
      obtain ⟨_, hcheck, -⟩ := bind_eq_ok_iff.mp hl
      exact hcheck
    refine ⟨hcheck, fun r => ?_⟩
    rw [← makeReglist_elements hl]
    exact l.allCompatible_onReg r
  · rintro ⟨hcheck, hcompat⟩
    obtain ⟨l, hl⟩ := exists_ofElements_iff.mpr hcompat
    refine ⟨l, ?_⟩
    rw [makeReglist, hcheck, ok_bind, reglist_eq_ok_iff,
      Reglist.ofElements_eq_ok_iff.mp hl]
    rw [ListTree.typelist_args, Typelist.filter_eq, filter_isRegmask, Typelist.typelist_eq]
    exact List.append_nil _

section Written

variable (T : Target)

/-- The lists as a tree; other elements, like interrupt handlers, may stand between. -/
def Resources.Written (res : Resources) (trees : List (ListTree Element)) : Prop :=
  regmaskLeaves trees = res.items.map (Resource.mask T)

/-- No field of a pin gets two values. -/
def Resources.Consistent (res : Resources) : Prop :=
  ∀ pin t u, .trait pin t ∈ res.items → .trait pin u ∈ res.items → t.field = u.field →
    t.value = u.value

/-- The masks of the drivers' own registers. -/
def Resources.configs (res : Resources) : List RegmaskType :=
  res.items.filterMap Resource.asConfig

variable {T} {res : Resources} {trees : List (ListTree Element)}

theorem Resources.mem_configs {t : RegmaskType} : t ∈ res.configs ↔ .config t ∈ res.items := by
  rw [configs, List.mem_filterMap]
  constructor
  · rintro ⟨x, hx, h⟩
    cases x with
    | config u =>
        obtain rfl := Option.some.inj h
        exact hx
    | clock p => cases h
    | trait pin u => cases h
  · exact fun h => ⟨_, h, rfl⟩

theorem Resources.mem_leaves {t : RegmaskType} {r : Reg}
    (h : res.Written T trees) : t ∈ onReg (regmaskLeaves trees) r ↔
      ∃ x ∈ res.items, x.mask T = t ∧ t.reg = r := by
  rw [mem_onReg, h, List.mem_map]
  constructor
  · rintro ⟨⟨x, hx, rfl⟩, hreg⟩
    exact ⟨x, hx, rfl, hreg⟩
  · rintro ⟨x, hx, rfl, hreg⟩
    exact ⟨⟨x, hx, rfl⟩, hreg⟩

theorem Resources.selfClocked (res : Resources) :
    gates.SelfClocked (res.items.map (Resource.mask T)) := by
  intro before t after hsplit e i hgate
  obtain ⟨xs, ys, hitems, rfl, hys⟩ := List.map_eq_append_iff.mp hsplit
  obtain ⟨x, zs, rfl, rfl, -⟩ := List.map_eq_cons_iff.mp hys
  obtain ⟨p, hp, henable⟩ := Option.map_eq_some_iff.mp hgate
  have hneeds : x.needs = some p := by
    cases x with
    | clock q => cases (ofReg_enable q).symm.trans hp
    | trait pin t =>
        have hport := ofReg_crx pin
        exact hport.symm.trans hp
    | config t => exact hp
  refine ⟨(Resource.clock p).mask T,
    List.mem_map_of_mem (res.clocked xs x zs hitems p hneeds), ?_, ?_⟩
  · exact congrArg Prod.fst henable
  · have hset : (Resource.mask T (.clock p)).setMask = 2 ^ p.enable.2 :=
      (enableBit T p).clearMask_eq_two_pow rfl
    rw [hset, henable]
    exact Nat.testBit_two_pow_self

/-- Two elements of a consistent list agree on their register. -/
theorem Resources.compatible (hconsistent : res.Consistent) {x y : Resource}
    (hx : x ∈ res.items) (hy : y ∈ res.items) {k l : FieldKey} (hk : x.key = some k)
    (hl : y.key = some l) (hreg : k.reg = l.reg) :
    (x.mask T).patch.Compatible (y.mask T).patch := by
  have hxw := Resource.writes_mask T hk
  have hyw := Resource.writes_mask T hl
  have hagree : k.Apart l → (x.mask T).patch.Compatible (y.mask T).patch := fun hapart =>
    hxw.toOnField.compatible hyw.toOnField hapart (hxw.reg.trans (hreg.trans hyw.reg.symm))
  cases x with
  | config t => cases hk
  | clock p =>
      cases hk
      cases y with
      | config t => cases hl
      | trait pin t =>
          cases hl
          exact absurd hreg.symm (crx_ne_enable pin p)
      | clock q =>
          cases hl
          by_cases hbit : p.enable.2 = q.enable.2
          · obtain rfl := enable_injective (Prod.ext hreg hbit)
            exact compatible_self _
          · exact hagree fun _ => by simp only; omega
  | trait pin t =>
      cases hk
      cases y with
      | config t => cases hl
      | clock q =>
          cases hl
          exact absurd hreg (crx_ne_enable pin q)
      | trait pin' u =>
          cases hl
          rcases Resource.pinField_eq_or_apart t.field u.field hreg with ⟨rfl, hfield⟩ | hapart
          · rw [← hfield] at hyw
            exact (hxw.compatible_iff hyw).mpr (hconsistent pin t u hx hy hfield)
          · exact hagree fun _ => hapart

theorem Resources.key_ne_config {x : Resource} {k : FieldKey} (hk : x.key = some k)
    {t : RegmaskType} (ht : .config t ∈ res.items) : k.reg ≠ t.reg := by
  intro hreg
  exact res.own t ht (hreg ▸ Resource.shared_of_key hk)

/-- What keeps a list from being accepted. -/
theorem Resources.allCompatible_iff (h : res.Written T trees) :
    (∀ r, AllCompatible (patches (onReg (regmaskLeaves trees) r))) ↔
      res.Consistent ∧ ∀ r, AllCompatible (patches (onReg res.configs r)) := by
  constructor
  · intro hcompat
    have hpatch : ∀ x ∈ res.items,
        (x.mask T).patch ∈ patches (onReg (regmaskLeaves trees) (x.mask T).reg) :=
      fun x hx => List.mem_map_of_mem ((mem_leaves h).mpr ⟨x, hx, rfl, rfl⟩)
    constructor
    · intro pin t u ht hu hfield
      have htw := Resource.writes_mask T (x := .trait pin t) rfl
      have huw := Resource.writes_mask T (x := .trait pin u) rfl
      rw [← hfield] at huw
      refine (htw.compatible_iff huw).mp (hcompat (crx pin) _ (hpatch _ ht) _ (hpatch _ hu))
    · intro r p hp q hq
      obtain ⟨t, ht, rfl⟩ := List.mem_map.mp hp
      obtain ⟨u, hu, rfl⟩ := List.mem_map.mp hq
      obtain ⟨htmem, rfl⟩ := mem_onReg.mp ht
      obtain ⟨humem, hreg⟩ := mem_onReg.mp hu
      have hup := hpatch _ (mem_configs.mp humem)
      change u.patch ∈ patches (onReg (regmaskLeaves trees) u.reg) at hup
      rw [hreg] at hup
      exact hcompat t.reg _ (hpatch _ (mem_configs.mp htmem)) _ hup
  · rintro ⟨hconsistent, hconfigs⟩ r p hp q hq
    obtain ⟨t, ht, rfl⟩ := List.mem_map.mp hp
    obtain ⟨u, hu, rfl⟩ := List.mem_map.mp hq
    obtain ⟨x, hx, rfl, hxr⟩ := (mem_leaves h).mp ht
    obtain ⟨y, hy, rfl, hyr⟩ := (mem_leaves h).mp hu
    rcases x.key_cases with ⟨k, hk⟩ | ⟨t, rfl⟩
    · have hkr := (Resource.writes_mask T hk).reg
      rcases y.key_cases with ⟨l, hl⟩ | ⟨u, rfl⟩
      · have hlr := (Resource.writes_mask T hl).reg
        exact res.compatible hconsistent hx hy hk hl
          (hkr.symm.trans (hxr.trans (hyr.symm.trans hlr)))
      · exact absurd (hkr.symm.trans (hxr.trans hyr.symm)) (key_ne_config hk hy)
    · rcases y.key_cases with ⟨l, hl⟩ | ⟨u, rfl⟩
      · have hlr := (Resource.writes_mask T hl).reg
        exact absurd (hlr.symm.trans (hyr.trans hxr.symm)) (key_ne_config hl hx)
      · have htp := mem_onReg.mpr ⟨mem_configs.mpr hx, hxr⟩
        have hup := mem_onReg.mpr ⟨mem_configs.mpr hy, hyr⟩
        exact hconfigs r _ (List.mem_map_of_mem htp) _ (List.mem_map_of_mem hup)

/-- The registers that the lists share are as after a reset of the controller. -/
def SharedAtReset (f : RegFile) : Prop := ∀ r, Resource.Shared r → f.value r = r.resetValue

section Reset

variable (h : res.Written T trees) {l : Reglist} (hl : makeReglist trees = .ok l)
  {prog : GatedFile → GatedFile} (hprog : l.resetTo gates.access = .ok prog) {f : RegFile}

include h hl hprog

theorem Resources.lost_reset : (prog ⟨f, []⟩).lost = [] := by
  refine ClockGates.SelfClocked.lost_resetTo ?_ hprog f
  rw [makeReglist_elements hl, h]
  exact res.selfClocked

theorem Resources.value_reset (r : Reg) :
    (prog ⟨f, []⟩).file.value r =
      if r ∈ (regmaskLeaves trees).map (fun u => u.reg)
      then resetUnion r (onReg (regmaskLeaves trees) r) else f.value r := by
  rw [ClockGates.value_resetTo hprog (lost_reset h hl hprog) r, makeReglist_elements hl]

theorem Resources.fieldOf_named {x : Resource} (hx : x ∈ res.items) {k : FieldKey}
    (hk : x.key = some k) :
    fieldOf k.offset k.width ((prog ⟨f, []⟩).file.value k.reg) = x.constant := by
  have hwrites := Resource.writes_mask T hk
  have hmem : x.mask T ∈ onReg (regmaskLeaves trees) k.reg :=
    (mem_leaves h).mpr ⟨x, hx, rfl, hwrites.reg⟩
  have hcompat := l.allCompatible_onReg k.reg
  rw [makeReglist_elements hl] at hcompat
  have hreg : k.reg ∈ (regmaskLeaves trees).map fun u => u.reg :=
    List.mem_map.mpr ⟨_, (mem_onReg.mp hmem).1, hwrites.reg⟩
  rw [value_reset h hl hprog, if_pos hreg]
  exact hwrites.fieldOf_resetUnion hcompat hmem

theorem Resources.fieldOf_unnamed (hf : SharedAtReset f) {k : FieldKey}
    (hshared : Resource.Shared k.reg)
    (hk : ∀ x ∈ res.items, ∀ l, x.key = some l → l.Apart k) :
    fieldOf k.offset k.width ((prog ⟨f, []⟩).file.value k.reg) =
      fieldOf k.offset k.width k.reg.resetValue := by
  rw [value_reset h hl hprog]
  split
  · refine fieldOf_resetUnion_of_apart fun t ht => ?_
    obtain ⟨x, hx, rfl, hreg⟩ := (mem_leaves h).mp ht
    rcases x.key_cases with ⟨l, hl⟩ | ⟨u, rfl⟩
    · have hwrites := Resource.writes_mask T hl
      rw [hwrites.clear]
      exact disjoint_fieldBits (hk x hx l hl (hwrites.reg.symm.trans hreg))
    · have hown : u.reg = k.reg := hreg
      exact absurd (hown ▸ hshared) (res.own u hx)
  · rw [hf k.reg hshared]

/-- A bit that is on in an enable register belongs to a clock in the lists. -/
theorem Resources.exists_clock_of_testBit (hf : SharedAtReset f) {p : Peripheral} {bit : Nat}
    (hon : ((prog ⟨f, []⟩).file.value p.enable.1).testBit bit = true) :
    ∃ q : Peripheral, .clock q ∈ res.items ∧ q.enable = (p.enable.1, bit) := by
  by_contra hnone
  have hapart : ∀ x ∈ res.items, ∀ k, x.key = some k → k.Apart ⟨p.enable.1, bit, 1⟩ := by
    intro x hx k hk hreg
    cases x with
    | clock q =>
        cases hk
        have hbit : q.enable.2 ≠ bit := fun hbit => hnone ⟨q, hx, Prod.ext hreg hbit⟩
        simp only
        omega
    | trait pin t =>
        cases hk
        exact absurd hreg (crx_ne_enable pin p)
    | config t => cases hk
  have hreset : fieldOf bit 1 ((prog ⟨f, []⟩).file.value p.enable.1) =
      fieldOf bit 1 p.enable.1.resetValue :=
    fieldOf_unnamed h hl hprog hf (.inl ⟨p, rfl⟩) hapart
  rw [fieldOf_one_iff.mpr hon, enable_resetValue, fieldOf, Nat.zero_shiftRight,
    Nat.zero_mod] at hreset
  cases hreset

theorem Resources.clock_runs_iff (hf : SharedAtReset f) (p : Peripheral) :
    ((prog ⟨f, []⟩).file.value p.enable.1).testBit p.enable.2 = true ↔
      .clock p ∈ res.items := by
  constructor
  · intro hon
    obtain ⟨q, hq, henable⟩ := exists_clock_of_testBit h hl hprog hf hon
    exact enable_injective henable ▸ hq
  · exact fun hp => fieldOf_one_iff.mp (fieldOf_named h hl hprog hp rfl)

theorem Resources.pin_unnamed (hf : SharedAtReset f) {pin : Pin} {g : PinField}
    (hg : ∀ t, .trait pin t ∈ res.items → t.field ≠ g) :
    fieldOf (g.offset pin) 2 ((prog ⟨f, []⟩).file.value (crx pin)) = g.resetValue := by
  have hapart : ∀ x ∈ res.items, ∀ k, x.key = some k → k.Apart ⟨crx pin, g.offset pin, 2⟩ := by
    intro x hx k hk hreg
    cases x with
    | clock q =>
        cases hk
        exact absurd hreg.symm (crx_ne_enable pin q)
    | trait pin' t =>
        cases hk
        rcases Resource.pinField_eq_or_apart t.field g hreg with ⟨rfl, hfield⟩ | hapart
        · exact absurd hfield (hg t hx)
        · exact hapart
    | config t => cases hk
  have hreset : fieldOf (g.offset pin) 2 ((prog ⟨f, []⟩).file.value (crx pin)) =
      fieldOf (g.offset pin) 2 (crx pin).resetValue :=
    fieldOf_unnamed h hl hprog hf (.inr ⟨pin, rfl⟩) hapart
  exact hreset.trans (fieldOf_crReset pin g)

end Reset

theorem mem_map_reg_iff {ts : List RegmaskType} {r : Reg} :
    r ∈ ts.map (fun u => u.reg) ↔ onReg ts r ≠ [] := by
  rw [ne_eq, onReg_eq_nil_iff, not_not]

/-- On a register of a driver there are only its own masks. -/
theorem Resources.onReg_leaves (h : res.Written T trees) {r : Reg}
    (hr : ¬ Resource.Shared r) : onReg (regmaskLeaves trees) r = onReg res.configs r := by
  rw [h, configs]
  induction res.items with
  | nil => rfl
  | cons x xs ih =>
      rcases x.key_cases with ⟨k, hk⟩ | ⟨t, rfl⟩
      · have hreg : (x.mask T).reg ≠ r := fun hreg =>
          hr (hreg ▸ (Resource.writes_mask T hk).reg ▸ Resource.shared_of_key hk)
        have hconfig : x.asConfig = none := by
          cases x with
          | clock p => rfl
          | trait pin t => rfl
          | config t => cases hk
        rw [List.map_cons, onReg_cons_of_ne hreg, List.filterMap_cons_none hconfig, ih]
      · have hconfig : (Resource.config t).asConfig = some t := rfl
        rw [List.map_cons, List.filterMap_cons_some hconfig]
        by_cases hreg : t.reg = r
        · subst hreg
          exact (onReg_cons_of_eq t _).trans
            ((congrArg (t :: ·) ih).trans (onReg_cons_of_eq t _).symm)
        · exact (onReg_cons_of_ne hreg _).trans (ih.trans (onReg_cons_of_ne hreg _).symm)

end Written

/-- The resource lists of any drivers are accepted together exactly when no field of a pin
gets two values and the masks of each other register agree.  Their reset, from the registers
as a reset of the controller leaves them, loses no store; then exactly the clocks in the
lists run and no other bit is on in their registers, each field of a pin has its value from
the lists or its reset value, and the other registers have what their own masks make of
them. -/
theorem resources_configure_pins (T : Target) {res : Resources} {trees : List (ListTree Element)}
    (h : res.Written T trees) :
    ((∃ l, makeReglist trees = .ok l) ↔
      ListTree.checkAll trees = .ok () ∧ res.Consistent ∧
        ∀ r, AllCompatible (patches (onReg res.configs r))) ∧
    ∀ l prog, makeReglist trees = .ok l → l.resetTo gates.access = .ok prog →
      ∀ f, SharedAtReset f →
        (prog ⟨f, []⟩).lost = [] ∧
        (∀ p : Peripheral,
          ((prog ⟨f, []⟩).file.value p.enable.1).testBit p.enable.2 = true ↔
            .clock p ∈ res.items) ∧
        (∀ (p : Peripheral) bit, ((prog ⟨f, []⟩).file.value p.enable.1).testBit bit = true →
          ∃ q : Peripheral, .clock q ∈ res.items ∧ q.enable = (p.enable.1, bit)) ∧
        (∀ pin t, .trait pin t ∈ res.items →
          fieldOf (t.field.offset pin) 2 ((prog ⟨f, []⟩).file.value (crx pin)) = t.value) ∧
        (∀ pin (g : PinField), (∀ t, .trait pin t ∈ res.items → t.field ≠ g) →
          fieldOf (g.offset pin) 2 ((prog ⟨f, []⟩).file.value (crx pin)) = g.resetValue) ∧
        ∀ r, ¬ Resource.Shared r → (prog ⟨f, []⟩).file.value r =
          if r ∈ res.configs.map (fun u => u.reg) then resetUnion r (onReg res.configs r)
          else f.value r := by
  refine ⟨exists_makeReglist_iff.trans (and_congr_right fun _ => res.allCompatible_iff h),
    fun l prog hl hprog f hf => ?_⟩
  refine ⟨res.lost_reset h hl hprog, fun p => ?_, fun p bit hon => ?_, fun pin t ht => ?_,
    fun pin g hg => ?_, fun r hr => ?_⟩
  · exact res.clock_runs_iff h hl hprog hf p
  · exact res.exists_clock_of_testBit h hl hprog hf hon
  · exact res.fieldOf_named h hl hprog ht rfl
  · exact res.pin_unnamed h hl hprog hf hg
  · rw [res.value_reset h hl hprog]
    simp only [mem_map_reg_iff, res.onReg_leaves h hr]

namespace PinResourcesTest

open RegvalTest (host)

def cr1 : Reg :=
  ⟨.uint32, Peripheral.usart2.baseAddr + 0x0c, .rw, 0, ValueType.two_pow_width_pos _⟩

theorem re_fits : 1 ≤ 1 ∧ 2 + 1 ≤ cr1.width ∧ 2 < 32 ∧ 1 < 32 := by decide

theorem te_fits : 1 ≤ 1 ∧ 3 + 1 ≤ cr1.width ∧ 3 < 32 ∧ 1 < 32 := by decide

/-- `usart::enable_rx`, `usart::enable_tx` -/
def usartCfg : List RegmaskType :=
  [(Regbits.ofLow host cr1 2 1 re_fits).toRegmaskType,
    (Regbits.ofLow host cr1 3 1 te_fits).toRegmaskType]

theorem usartCfg_reg {t : RegmaskType} (ht : t ∈ usartCfg) :
    Peripheral.ofReg t.reg = some .usart2 := by
  rcases List.mem_pair.mp ht with rfl | rfl <;> rfl

theorem pinNo_lt (no : Nat) : no % 16 < 16 := Nat.mod_lt no (by decide)

def pin (port : Port) (no : Nat) : Pin := ⟨port, ⟨no % 16, pinNo_lt no⟩⟩

/-- The pins and clocks of the demo: joystick, led, bus, display, radio and serial line. -/
def demoPins : Resources :=
  .clock .pwr ++ .clock .bkp ++ .clock .adc1 ++ .pin (pin .c 6) [.input, .floating] ++
    .gpioLed (pin .c 12) .mhz2 ++ spi ++
    .nokia3310 spi (pin .b 2) (pin .c 7) (pin .c 10) .mhz50 ++
    .nrf24l01 spi (pin .c 8) (pin .a 4) (pin .c 9) .mhz50 ++
    .usart .usart2 (pin .a 3) (pin .a 2) .mhz50
where
  spi : Resources := .spi .spi1 (pin .a 5) (pin .a 6) (pin .a 7) .mhz50

theorem usartCfg_clocked {t : RegmaskType} (ht : t ∈ usartCfg) (p : Peripheral)
    (hp : Peripheral.ofReg t.reg = some p) : .clock p ∈ demoPins.items := by
  obtain rfl := Option.some.inj ((usartCfg_reg ht).symm.trans hp)
  exact List.mem_append_right _ (List.mem_append_left _ List.mem_cons_self)

theorem usartCfg_own {t : RegmaskType} (ht : t ∈ usartCfg) : ¬ Resource.Shared t.reg :=
  not_shared (usartCfg_reg ht) fun port h => by cases h

def demo : Resources :=
  demoPins.configured usartCfg (fun _ => usartCfg_clocked) fun _ => usartCfg_own

def demoTrees : List (ListTree Element) :=
  .leaf (.irqHandler ⟨0, -15, 0x101⟩) ::
    demo.items.map fun x => .leaf (.regmask (x.mask host))

/-- An element that leaves the field of a pin alone. -/
def leaves (pin : Pin) (g : PinField) : Resource → Bool
  | .clock _ => true
  | .trait pin' t => pin' ≠ pin || t.field ≠ g
  | .config _ => true

set_option maxRecDepth 2000

theorem exists_demo_reset : ∃ l prog, makeReglist demoTrees = .ok l ∧
    l.resetTo gates.access = .ok prog := ⟨_, _, rfl, rfl⟩

/-- The output of the led is a push-pull one; a pin that is in no list is still a floating
input. -/
theorem resources_configure_pins_demo :
    demo.Written host demoTrees ∧ ∃ l prog, makeReglist demoTrees = .ok l ∧
      l.resetTo gates.access = .ok prog ∧ (prog ⟨.atReset, []⟩).lost = [] ∧
      fieldOf 18 2 ((prog ⟨.atReset, []⟩).file.value (crx (pin .c 12))) = 0 ∧
      fieldOf 14 2 ((prog ⟨.atReset, []⟩).file.value (crx (pin .c 11))) = 1 ∧
      (prog ⟨.atReset, []⟩).file.value cr1 = 0x0c := by
  have hwritten : demo.Written host demoTrees := rfl
  obtain ⟨l, prog, hl, hprog⟩ := exists_demo_reset
  obtain ⟨hlost, -, -, hnamed, hunnamed, hown⟩ :=
    (resources_configure_pins host hwritten).2 l prog hl hprog .atReset fun r _ => rfl
  have hled : .trait (pin .c 12) .pushPull ∈ demo.items := @List.mem_of_getElem? _ _ 8 _ rfl
  have hfree : ∀ x ∈ demo.items, leaves (pin .c 11) .cnf x = true := List.all_eq_true.mp rfl
  refine ⟨hwritten, l, prog, hl, hprog, hlost, hnamed (pin .c 12) .pushPull hled,
    hunnamed (pin .c 11) .cnf (fun t ht => ?_), (hown cr1 ?_).trans ?_⟩
  · simpa [leaves] using hfree _ ht
  · exact usartCfg_own (List.mem_cons_self : _ ∈ usartCfg)
  · rfl

end PinResourcesTest

end F1

end OpenMptl
