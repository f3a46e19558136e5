/-
Two drivers on one SPI bus.  Each driver moves its own select line only, so that the
other line has to be high whenever data is written.  The hardware answers the polling
loops when it likes; every write to the data register is kept with the levels of the
output pins and the configuration of the bus at that moment.
-/
import Mathlib.Data.UInt
import OpenMptl.ClockHse
import OpenMptl.SpiFrequency
import OpenMptl.Waiting

namespace OpenMptl

/-- The type `gpio<port, pin_no>`. -/
structure Gpio where
  port : Char
  pinNo : Fin 16
deriving DecidableEq

def Gpio.pinMask (pin : Gpio) : BitVec 16 := 1#16 <<< pin.pinNo.val

/-- The output data registers of the ports. -/
abbrev OutputLatches := Char → BitVec 16

def OutputLatches.level (odr : OutputLatches) (pin : Gpio) : Bool :=
  (odr pin.port).getLsbD pin.pinNo

/-- The drivers that use the bus. -/
inductive SpiDevice
  | nokia3310
  | nrf24l01
deriving DecidableEq, Repr

/-- The fields of `SPI::CR1` that a configuration sets. -/
structure SpiCr1 where
  cpha : Bool
  cpol : Bool
  mstr : Bool
  br : Nat
  spe : Bool
  lsbfirst : Bool
  ssi : Bool
  ssm : Bool
  rxonly : Bool
  dff : Bool
  bidioe : Bool
  bidimode : Bool
deriving DecidableEq

/-- The reset value is 0. -/
def SpiCr1.reset : SpiCr1 :=
  ⟨false, false, false, 0, false, false, false, false, false, false, false, false⟩

/-- A store to the data register. -/
structure SpiWrite where
  device : SpiDevice
  data : UInt16
  odr : OutputLatches
  cr1 : SpiCr1

/-- The pins, the bus and what the hardware is going to do: whether the coming turns of
the polling loops are the last ones, and what the data register shows at each load. -/
structure Board where
  odr : OutputLatches
  cr1 : SpiCr1
  answers : List Bool
  received : Nat → UInt16
  loads : Nat
  writes : List SpiWrite

/-- The answers after the first that ends a loop. -/
def nextAnswers : List Bool → Option (List Bool)
  | [] => none
  | true :: rest => some rest
  | false :: rest => nextAnswers rest

namespace Board

/-- A loop that polls a flag of the hardware. -/
def await : Waiting Board Unit := fun s =>
  match nextAnswers s.answers with
  | some rest => (some ⟨⟩, { s with answers := rest })
  | none => (none, { s with answers := [] })

/-- `core::nop()` -/
def nop (_ : Nat) : Waiting Board Unit := pure ⟨⟩

end Board

namespace Gpio

/-- A store to BSRR. -/
def set (pin : Gpio) : Waiting Board Unit := .modify fun s =>
  { s with odr := Function.update s.odr pin.port (s.odr pin.port ||| pin.pinMask) }

/-- A store to BRR. -/
def reset (pin : Gpio) : Waiting Board Unit := .modify fun s =>
  { s with odr := Function.update s.odr pin.port (s.odr pin.port &&& ~~~pin.pinMask) }

end Gpio

namespace Spi

/-! The configuration traits, as what they do to the value that is reset to. -/

def master (r : SpiCr1) : SpiCr1 := { r with mstr := true, ssi := true }

def clockPolarityLow (r : SpiCr1) : SpiCr1 := { r with cpol := false }

def clockPolarityHigh (r : SpiCr1) : SpiCr1 := { r with cpol := true }

def clockPhaseFirstEdge (r : SpiCr1) : SpiCr1 := { r with cpha := false }

def clockPhaseSecondEdge (r : SpiCr1) : SpiCr1 := { r with cpha := true }

def softwareSlaveManagement (r : SpiCr1) : SpiCr1 := { r with ssm := true }

def twoLinesFullDuplex (r : SpiCr1) : SpiCr1 :=
  { r with bidimode := false, bidioe := false, rxonly := false }

def oneLineTx (r : SpiCr1) : SpiCr1 :=
  { r with bidimode := true, bidioe := true, rxonly := false }

def msbFirst (r : SpiCr1) : SpiCr1 := { r with lsbfirst := false }

def dataSize (value : Nat) (r : SpiCr1) : SpiCr1 := { r with dff := value = 16 }

/-- The demo uses SPI1 and runs at 72 MHz, PCLK2 included. -/
def maxFrequency (value : Nat) (r : SpiCr1) : SpiCr1 :=
  { r with br := maxFrequencyBr (mhz 72) value }

/-- `CR1::SPE` -/
def spe (r : SpiCr1) : SpiCr1 := { r with spe := true }

def disable : Waiting Board Unit := .modify fun s => { s with cr1 := { s.cr1 with spe := false } }

def configure (traits : List (SpiCr1 → SpiCr1)) : Waiting Board Unit := .modify fun s =>
  { s with cr1 := traits.foldl (fun r set => set r) .reset }

def reconfigure (traits : List (SpiCr1 → SpiCr1)) : Waiting Board Unit := do
  disable
  configure (spe :: traits)

def waitTransmitEmpty : Waiting Board Unit := Board.await

def waitReceiveNotEmpty : Waiting Board Unit := Board.await

def waitNotBusy : Waiting Board Unit := Board.await

def send (device : SpiDevice) (data : UInt16) : Waiting Board Unit := .modify fun s =>
  { s with writes := s.writes ++ [⟨device, data, s.odr, s.cr1⟩] }

def receive : Waiting Board UInt16 := fun s =>
  (some (s.received s.loads), { s with loads := s.loads + 1 })

def sendBlocking (device : SpiDevice) (data : UInt16) : Waiting Board Unit := do
  waitTransmitEmpty
  send device data

def writereadBlocking (device : SpiDevice) (data : UInt16) : Waiting Board UInt8 := do
  waitTransmitEmpty
  send device data
  waitReceiveNotEmpty
  let data ← receive
  return data.toUInt8

end Spi

/-- The pins of `nokia3310<>`. -/
structure Nokia3310 where
  lcdDs : Gpio
  lcdReset : Gpio
  lcdE : Gpio

namespace Nokia3310

variable (lcd : Nokia3310)

def lcdbufSize : Nat := 84 * 48 / 8

def enableSlaveSelect : Waiting Board Unit := lcd.lcdE.reset

def disableSlaveSelect : Waiting Board Unit := do
  Spi.waitNotBusy
  lcd.lcdE.set

def selectData : Waiting Board Unit := do
  Spi.waitNotBusy
  lcd.lcdDs.set

def selectCommand : Waiting Board Unit := do
  Spi.waitNotBusy
  lcd.lcdDs.reset

def sendByte (data : UInt8) : Waiting Board Unit :=
  Spi.sendBlocking .nokia3310 data.toUInt16

def spiCfg : List (SpiCr1 → SpiCr1) :=
  [Spi.master, Spi.maxFrequency (mhz 4), Spi.dataSize 8, Spi.clockPolarityHigh,
    Spi.clockPhaseSecondEdge, Spi.oneLineTx, Spi.msbFirst, Spi.softwareSlaveManagement]

def enable : Waiting Board Unit := Spi.reconfigure spiCfg

def update (size : Nat) (lcdbuf : Fin size → UInt8) : Waiting Board Unit := do
  lcd.enableSlaveSelect
  lcd.selectCommand
  sendByte 0x80
  sendByte 0x40
  lcd.selectData
  (List.finRange size).forM fun i => sendByte (lcdbuf i)
  lcd.disableSlaveSelect

def setContrast (value : UInt8) : Waiting Board Unit := do
  lcd.enableSlaveSelect
  lcd.selectCommand
  sendByte (0x20 ||| 0x1)
  sendByte (0x80 ||| value)
  sendByte (0x20 ||| 0x0)
  lcd.disableSlaveSelect

/-- `init()` with its three arguments. -/
def initWith (contrast tempCoeff bias : UInt8) : Waiting Board Unit := do
  let contrast := contrast &&& 0x7f
  let tempCoeff := tempCoeff &&& 0x03
  let bias := bias &&& 0x07
  lcd.lcdDs.set
  lcd.lcdE.set
  lcd.lcdReset.set
  lcd.lcdReset.reset
  Board.nop 10000
  lcd.lcdReset.set
  Board.nop 10000
  enable
  lcd.enableSlaveSelect
  lcd.selectCommand
  sendByte (0x20 ||| 0x1)
  sendByte (0x80 ||| contrast)
  sendByte (0x04 ||| tempCoeff)
  sendByte (0x10 ||| bias)
  sendByte (0x20 ||| 0x0)
  sendByte (0x08 ||| 0x0)
  sendByte (0x08 ||| 0x4)
  lcd.disableSlaveSelect

def defaultContrast : UInt8 := 0x45

def defaultTempCoeff : UInt8 := 0x2

def defaultBias : UInt8 := 0x3

def init : Waiting Board Unit := lcd.initWith defaultContrast defaultTempCoeff defaultBias

end Nokia3310

/-- The output pins of `nrf24l01<>`. -/
structure Nrf24l01 where
  nrfCe : Gpio
  nrfCsn : Gpio

/-- `dev_register`, with any value of its underlying type. -/
structure DevRegister where
  value : UInt8
deriving DecidableEq

namespace DevRegister

def rxAddrP0 : DevRegister := ⟨0x0a⟩

def rxAddrP1 : DevRegister := ⟨0x0b⟩

def txAddr : DevRegister := ⟨0x10⟩

end DevRegister

namespace Nrf24l01

variable (nrf : Nrf24l01)

/-- `dev_command::nop` -/
def nop : UInt8 := 0xff

def enableSlaveSelect : Waiting Board Unit := nrf.nrfCsn.reset

def disableSlaveSelect : Waiting Board Unit := nrf.nrfCsn.set

def writeread (data : UInt8) : Waiting Board UInt8 :=
  Spi.writereadBlocking .nrf24l01 data.toUInt16

def readCmd (reg : DevRegister) : UInt8 := reg.value &&& 0x1f

def writeCmd (reg : DevRegister) : UInt8 := ((1 : UInt8) <<< 5) ||| (reg.value &&& 0x1f)

def readRegister (reg : DevRegister) : Waiting Board UInt8 := do
  nrf.enableSlaveSelect
  let _ ← writeread (readCmd reg)
  let ret ← writeread nop
  nrf.disableSlaveSelect
  return ret

/-- The bytes of the address are replaced one after the other. -/
def readAddressRegister (reg : DevRegister) (retAddr : Fin 5 → UInt8) :
    Waiting Board (Fin 5 → UInt8) := do
  nrf.enableSlaveSelect
  let _ ← writeread (readCmd reg)
  let buf ← (List.finRange 5).foldlM
    (fun buf i => do return Function.update buf i (← writeread nop)) retAddr
  nrf.disableSlaveSelect
  return buf

/-- Only three registers hold an address of five bytes. -/
def writeAddressRegister (reg : DevRegister) (addr : Fin 5 → UInt8) :
    Waiting Board Unit := do
  if reg = .rxAddrP0 ∨ reg = .rxAddrP1 ∨ reg = .txAddr then
    nrf.enableSlaveSelect
    let _ ← writeread (writeCmd reg)
    (List.finRange 5).forM fun i => do let _ ← writeread (addr i)
    nrf.disableSlaveSelect

def writeRegister (reg : DevRegister) (data : UInt8) : Waiting Board UInt8 := do
  nrf.enableSlaveSelect
  let ret ← writeread (writeCmd reg)
  let _ ← writeread data
  nrf.disableSlaveSelect
  return ret

def init : Waiting Board Unit := do
  nrf.nrfCsn.set
  nrf.nrfCe.reset

def spiCfg : List (SpiCr1 → SpiCr1) :=
  [Spi.master, Spi.maxFrequency (mhz 8), Spi.dataSize 8, Spi.clockPolarityLow,
    Spi.clockPhaseFirstEdge, Spi.twoLinesFullDuplex, Spi.msbFirst, Spi.softwareSlaveManagement]

def enable : Waiting Board Unit := Spi.reconfigure spiCfg

end Nrf24l01

/-! The loops of `time::init()`; what is stored there are registers of the clocks. -/

namespace Rtc

def waitLseReady : Waiting Board Unit := Board.await

def waitSync : Waiting Board Unit := Board.await

def waitConfigDone : Waiting Board Unit := Board.await

def setPrescaler : Waiting Board Unit := do
  waitConfigDone
  waitConfigDone

def setCounter : Waiting Board Unit := do
  waitConfigDone
  waitConfigDone

def init : Waiting Board Unit := do
  waitLseReady
  waitSync
  setPrescaler

end Rtc

namespace Kernel

def lcd : Nokia3310 := ⟨⟨'B', 2⟩, ⟨'C', 7⟩, ⟨'C', 10⟩⟩

def nrf : Nrf24l01 := ⟨⟨'C', 8⟩, ⟨'A', 4⟩⟩

/-- The pin of the LED, which is active low. -/
def led : Gpio := ⟨'C', 12⟩

/-- `Kernel::init()` after `reset_to()`; the interrupts and the ADC are enabled without
the pins and the bus. -/
def init : Waiting Board Unit := do
  led.set
  Rtc.init
  Rtc.setCounter
  lcd.init
  nrf.init

end Kernel

/-- What a program does with the two drivers. -/
inductive DriverCall
  | lcdInitWith (contrast tempCoeff bias : UInt8)
  | lcdInit
  | lcdEnable
  | lcdSetContrast (value : UInt8)
  | lcdUpdate (lcdbuf : Fin Nokia3310.lcdbufSize → UInt8)
  | nrfInit
  | nrfEnable
  | nrfReadRegister (reg : DevRegister)
  | nrfWriteRegister (reg : DevRegister) (data : UInt8)
  | nrfReadAddressRegister (reg : DevRegister) (retAddr : Fin 5 → UInt8)
  | nrfWriteAddressRegister (reg : DevRegister) (addr : Fin 5 → UInt8)

namespace Kernel

def call : DriverCall → Waiting Board Unit
  | .lcdInitWith contrast tempCoeff bias => lcd.initWith contrast tempCoeff bias
  | .lcdInit => lcd.init
  | .lcdEnable => Nokia3310.enable
  | .lcdSetContrast value => lcd.setContrast value
  | .lcdUpdate lcdbuf => lcd.update Nokia3310.lcdbufSize lcdbuf
  | .nrfInit => nrf.init
  | .nrfEnable => Nrf24l01.enable
  | .nrfReadRegister reg => do let _ ← nrf.readRegister reg
  | .nrfWriteRegister reg data => do let _ ← nrf.writeRegister reg data
  | .nrfReadAddressRegister reg retAddr => do let _ ← nrf.readAddressRegister reg retAddr
  | .nrfWriteAddressRegister reg addr => nrf.writeAddressRegister reg addr

def program (calls : List DriverCall) : Waiting Board Unit := do
  init
  calls.forM call

/-- The board after `reset_to()`. -/
def afterReset (answers : List Bool) (received : Nat → UInt16) : Board where
  odr := fun _ => 0
  cr1 := .reset
  answers := answers
  received := received
  loads := 0
  writes := []

/-- The data that a program has written to the bus when it returns or hangs. -/
def spiWrites (calls : List DriverCall) (answers : List Bool) (received : Nat → UInt16) :
    List SpiWrite :=
  (program calls (afterReset answers received)).2.writes

end Kernel

/-- The levels of LCD_E and NRF_CSN at which the chip of the driver listens and the other
one does not. -/
def SpiDevice.levels : SpiDevice → Bool × Bool
  | .nokia3310 => (false, true)
  | .nrf24l01 => (true, false)

namespace SpiWrite

def levels (w : SpiWrite) : Bool × Bool :=
  (w.odr.level Kernel.lcd.lcdE, w.odr.level Kernel.nrf.nrfCsn)

def Exclusive (w : SpiWrite) : Prop := w.levels = w.device.levels

instance (w : SpiWrite) : Decidable w.Exclusive :=
  inferInstanceAs (Decidable (w.levels = w.device.levels))

/-- Both chips listen. -/
def BothSelected (w : SpiWrite) : Prop := w.levels = (false, false)

end SpiWrite

/-! What the steps of the drivers do to the two lines and to the bus. -/

namespace Board

/-- The answers that end a loop. -/
def answered (s : Board) : Nat := s.answers.count true

/-- The levels of the two lines, and what is known of the answers to come and of the
writes. -/
structure At (lcdE nrfCsn : Bool) (known : Nat → List SpiWrite → Prop) (s : Board) : Prop where
  lcdE : s.odr.level Kernel.lcd.lcdE = lcdE
  nrfCsn : s.odr.level Kernel.nrf.nrfCsn = nrfCsn
  known : known s.answered s.writes

end Board

theorem nextAnswers_eq_some {answers rest : List Bool} (h : nextAnswers answers = some rest) :
    answers.count true = rest.count true + 1 := by
  induction answers with
  | nil => cases h
  | cons answer answers ih =>
      cases answer with
      | true =>
          cases h
          exact List.count_cons_self
      | false =>
          rw [List.count_cons_of_ne (by decide)]
          exact ih h

theorem nextAnswers_eq_none {answers : List Bool} (h : nextAnswers answers = none) :
    answers.count true = 0 := by
  induction answers with
  | nil => rfl
  | cons answer answers ih =>
      cases answer with
      | true => cases h
      | false =>
          rw [List.count_cons_of_ne (by decide)]
          exact ih h

theorem Gpio.getLsbD_pinMask (pin : Gpio) (n : Fin 16) :
    pin.pinMask.getLsbD n = decide (n = pin.pinNo) := by
  have hbits : ∀ n pinNo : Fin 16, (1#16 <<< pinNo.val).getLsbD n = decide (n = pinNo) := by
    decide
  exact hbits n pin.pinNo

/-- A store that changes one pin of a port. -/
theorem level_update (odr : OutputLatches) (pin other : Gpio) {latch : BitVec 16} {level : Bool}
    (h : ∀ n : Fin 16,
      latch.getLsbD n = if n = pin.pinNo then level else (odr pin.port).getLsbD n) :
    OutputLatches.level (Function.update odr pin.port latch) other =
      if other = pin then level else odr.level other := by
  obtain ⟨port, pinNo⟩ := other
  by_cases hport : port = pin.port
  · subst hport
    rw [OutputLatches.level, Function.update_self, h pinNo]
    by_cases hpin : pinNo = pin.pinNo
    · subst hpin
      rw [if_pos rfl, if_pos rfl]
    · have hne : (⟨pin.port, pinNo⟩ : Gpio) ≠ pin := fun h => hpin (congrArg Gpio.pinNo h)
      rw [if_neg hpin, if_neg hne]
      rfl
  · have hne : (⟨port, pinNo⟩ : Gpio) ≠ pin := fun h => hport (congrArg Gpio.port h)
    rw [if_neg hne, OutputLatches.level, Function.update_of_ne hport]
    rfl

theorem level_set (odr : OutputLatches) (pin other : Gpio) :
    OutputLatches.level (Function.update odr pin.port (odr pin.port ||| pin.pinMask)) other =
      if other = pin then true else odr.level other := by
  refine level_update odr pin other fun n => ?_
  rw [BitVec.getLsbD_or, pin.getLsbD_pinMask]
  by_cases hpin : n = pin.pinNo
  · rw [if_pos hpin, decide_eq_true hpin, Bool.or_true]
  · rw [if_neg hpin, decide_eq_false hpin, Bool.or_false]

theorem level_reset (odr : OutputLatches) (pin other : Gpio) :
    OutputLatches.level (Function.update odr pin.port (odr pin.port &&& ~~~pin.pinMask)) other =
      if other = pin then false else odr.level other := by
  refine level_update odr pin other fun n => ?_
  rw [BitVec.getLsbD_and, BitVec.getLsbD_not, pin.getLsbD_pinMask, decide_eq_true n.isLt,
    Bool.true_and]
  by_cases hpin : n = pin.pinNo
  · rw [if_pos hpin, decide_eq_true hpin, Bool.not_true, Bool.and_false]
  · rw [if_neg hpin, decide_eq_false hpin, Bool.not_false, Bool.and_true]

section Triples

open Waiting

variable {lcdE nrfCsn : Bool} {known : Nat → List SpiWrite → Prop} {hangs : Board → Prop}

theorem triple_set (pin : Gpio) :
    Triple (Board.At lcdE nrfCsn known) pin.set
      (fun _ => Board.At (if Kernel.lcd.lcdE = pin then true else lcdE)
        (if Kernel.nrf.nrfCsn = pin then true else nrfCsn) known) hangs := by
  refine Triple.modify fun s hs => ⟨?_, ?_, hs.known⟩
  · rw [level_set, hs.lcdE]
  · rw [level_set, hs.nrfCsn]

theorem triple_reset (pin : Gpio) :
    Triple (Board.At lcdE nrfCsn known) pin.reset
      (fun _ => Board.At (if Kernel.lcd.lcdE = pin then false else lcdE)
        (if Kernel.nrf.nrfCsn = pin then false else nrfCsn) known) hangs := by
  refine Triple.modify fun s hs => ⟨?_, ?_, hs.known⟩
  · rw [level_reset, hs.lcdE]
  · rw [level_reset, hs.nrfCsn]

theorem triple_await {next : Nat → List SpiWrite → Prop}
    (hnext : ∀ k writes, known (k + 1) writes → next k writes)
    (hhangs : ∀ s : Board, known 0 s.writes → hangs s) :
    Triple (Board.At lcdE nrfCsn known) Board.await
      (fun _ => Board.At lcdE nrfCsn next) hangs := by
  intro s hs
  have hknown := hs.known
  rw [Board.answered] at hknown
  rw [Board.await]
  cases hanswers : nextAnswers s.answers with
  | none =>
      rw [nextAnswers_eq_none hanswers] at hknown
      exact hhangs _ hknown
  | some rest =>
      rw [nextAnswers_eq_some hanswers] at hknown
      exact ⟨hs.lcdE, hs.nrfCsn, hnext _ _ hknown⟩

theorem triple_send {next : Nat → List SpiWrite → Prop} {device : SpiDevice} (data : UInt16)
    (h : ∀ k writes w, known k writes → w.device = device →
      w.odr.level Kernel.lcd.lcdE = lcdE → w.odr.level Kernel.nrf.nrfCsn = nrfCsn →
      next k (writes ++ [w])) :
    Triple (Board.At lcdE nrfCsn known) (Spi.send device data)
      (fun _ => Board.At lcdE nrfCsn next) hangs :=
  Triple.modify fun _ hs =>
    ⟨hs.lcdE, hs.nrfCsn, h _ _ ⟨device, data, _, _⟩ hs.known rfl hs.lcdE hs.nrfCsn⟩

theorem triple_receive : Triple (Board.At lcdE nrfCsn known) Spi.receive
    (fun _ => Board.At lcdE nrfCsn known) hangs :=
  Triple.of_eq fun s hs =>
    ⟨s.received s.loads, _, rfl, ⟨hs.lcdE, hs.nrfCsn, hs.known⟩⟩

theorem triple_reconfigure (traits : List (SpiCr1 → SpiCr1)) :
    Triple (Board.At lcdE nrfCsn known) (Spi.reconfigure traits)
      (fun _ => Board.At lcdE nrfCsn known) hangs := by
  have hdisable : Triple (Board.At lcdE nrfCsn known) Spi.disable
      (fun _ => Board.At lcdE nrfCsn known) hangs :=
    Triple.modify fun _ hs => ⟨hs.lcdE, hs.nrfCsn, hs.known⟩
  exact Triple.bind hdisable fun _ => Triple.modify fun _ hs => ⟨hs.lcdE, hs.nrfCsn, hs.known⟩

theorem triple_nop (n : Nat) : Triple (Board.At lcdE nrfCsn known) (Board.nop n)
    (fun _ => Board.At lcdE nrfCsn known) hangs :=
  Triple.pure fun _ hs => hs

end Triples

/-- What is known after `a` answered loops and `b` writes, as it grows with the steps of
a driver.  A loop hangs before the first write, or after as many as were waited for. -/
structure Progress (device : SpiDevice) (lcdE nrfCsn : Bool)
    (known : Nat → Nat → Nat → List SpiWrite → Prop) (hangs : Board → Prop) : Prop where
  answered : ∀ a b k writes, known a b (k + 1) writes → known (a + 1) b k writes
  written : ∀ a b k writes w, known a b k writes → w.device = device →
    w.odr.level Kernel.lcd.lcdE = lcdE → w.odr.level Kernel.nrf.nrfCsn = nrfCsn →
    known a (b + 1) k (writes ++ [w])
  hangs : ∀ a ≤ 8, ∀ s : Board, known a (a - 1) 0 s.writes → hangs s

section Nokia3310

open Waiting

variable {lcdE nrfCsn : Bool} {known : Nat → Nat → Nat → List SpiWrite → Prop}
  {hangs : Board → Prop} (h : Progress .nokia3310 false nrfCsn known hangs)

include h

theorem triple_sendByte {b : Nat} (hb : b ≤ 7) (data : UInt8) :
    Triple (Board.At false nrfCsn (known (b + 1) b)) (Nokia3310.sendByte data)
      (fun _ => Board.At false nrfCsn (known (b + 2) (b + 1))) hangs :=
  Triple.bind (triple_await (h.answered _ _) (h.hangs _ (Nat.succ_le_succ hb))) fun _ =>
    triple_send _ (h.written _ _)

theorem triple_initWith (contrast tempCoeff bias : UInt8) :
    Triple (Board.At lcdE nrfCsn (known 0 0)) (Kernel.lcd.initWith contrast tempCoeff bias)
      (fun _ => Board.At true nrfCsn (known 9 7)) hangs := by
  refine Triple.bind (triple_set Kernel.lcd.lcdDs) fun _ => ?_
  refine Triple.bind (triple_set Kernel.lcd.lcdE) fun _ => ?_
  refine Triple.bind (triple_set Kernel.lcd.lcdReset) fun _ => ?_
  refine Triple.bind (triple_reset Kernel.lcd.lcdReset) fun _ => ?_
  refine Triple.bind (triple_nop _) fun _ => ?_
  refine Triple.bind (triple_set Kernel.lcd.lcdReset) fun _ => ?_
  refine Triple.bind (triple_nop _) fun _ => ?_
  refine Triple.bind (triple_reconfigure _) fun _ => ?_
  refine Triple.bind (triple_reset Kernel.lcd.lcdE) fun _ => ?_
  refine Triple.bind (Triple.bind (triple_await (h.answered _ _) (h.hangs 0 (by omega))) fun _ =>
    triple_reset Kernel.lcd.lcdDs) fun _ => ?_
  refine Triple.bind (triple_sendByte h (b := 0) (by omega) _) fun _ => ?_
  refine Triple.bind (triple_sendByte h (b := 1) (by omega) _) fun _ => ?_
  refine Triple.bind (triple_sendByte h (b := 2) (by omega) _) fun _ => ?_
  refine Triple.bind (triple_sendByte h (b := 3) (by omega) _) fun _ => ?_
  refine Triple.bind (triple_sendByte h (b := 4) (by omega) _) fun _ => ?_
  refine Triple.bind (triple_sendByte h (b := 5) (by omega) _) fun _ => ?_
  refine Triple.bind (triple_sendByte h (b := 6) (by omega) _) fun _ => ?_
  exact Triple.bind (triple_await (h.answered _ _) (h.hangs 8 (by omega))) fun _ =>
    triple_set Kernel.lcd.lcdE

end Nokia3310

/-! The writes of a whole program: seven with both chips listening, then exclusive ones. -/

/-- The writes of a program whose loops were offered `total` answers. -/
structure Outcome (total : Nat) (writes : List SpiWrite) : Prop where
  empty_iff : writes = [] ↔ total < 8
  split : ∃ first rest, writes = first ++ rest ∧ first.length ≤ 7 ∧
    (rest ≠ [] → first.length = 7) ∧ (∀ w ∈ first, w.BothSelected) ∧ ∀ w ∈ rest, w.Exclusive

/-- The writes once the initialisation is over. -/
structure Initialised (total : Nat) (writes : List SpiWrite) : Prop where
  le_total : 8 ≤ total
  split : ∃ first rest, writes = first ++ rest ∧ first.length = 7 ∧
    (∀ w ∈ first, w.BothSelected) ∧ ∀ w ∈ rest, w.Exclusive

/-- The first initialisation of the display, after the six loops of the clock. -/
structure Starting (total a b k : Nat) (writes : List SpiWrite) : Prop where
  total_eq : total = k + 6 + a
  length_eq : writes.length = b
  both : ∀ w ∈ writes, w.BothSelected

namespace Initialised

variable {total : Nat} {writes : List SpiWrite}

theorem outcome (h : Initialised total writes) : Outcome total writes := by
  obtain ⟨first, rest, rfl, hlength, hfirst, hrest⟩ := h.split
  refine ⟨iff_of_false (fun hnil => ?_) (Nat.not_lt.mpr h.le_total),
    first, rest, rfl, hlength.le, fun _ => hlength, hfirst, hrest⟩
  rw [(List.append_eq_nil_iff.mp hnil).1] at hlength
  cases hlength

theorem append (h : Initialised total writes) {w : SpiWrite} (hw : w.Exclusive) :
    Initialised total (writes ++ [w]) := by
  obtain ⟨first, rest, rfl, hlength, hfirst, hrest⟩ := h.split
  refine ⟨h.le_total, first, rest ++ [w], List.append_assoc _ _ _, hlength, hfirst, ?_⟩
  intro x hx
  rcases List.mem_append.mp hx with hold | hnew
  · exact hrest x hold
  · exact List.mem_singleton.mp hnew ▸ hw

/-- Levels that select the writing device only. -/
theorem progress {device : SpiDevice} {lcdE nrfCsn : Bool}
    (hlevels : ∀ w : SpiWrite, w.device = device → w.odr.level Kernel.lcd.lcdE = lcdE →
      w.odr.level Kernel.nrf.nrfCsn = nrfCsn → w.Exclusive) :
    Progress device lcdE nrfCsn (fun _ _ _ => Initialised total)
      (fun s => Outcome total s.writes) where
  answered _ _ _ _ h := h
  written _ _ _ _ w h hdevice he hcsn := h.append (hlevels w hdevice he hcsn)
  hangs _ _ _ h := h.outcome

theorem progress_nokia3310 : Progress .nokia3310 false true
    (fun _ _ _ => Initialised total) (fun s => Outcome total s.writes) :=
  progress fun w hdevice he hcsn => by
    rw [SpiWrite.Exclusive, hdevice]
    exact Prod.ext he hcsn

theorem progress_nrf24l01 : Progress .nrf24l01 true false
    (fun _ _ _ => Initialised total) (fun s => Outcome total s.writes) :=
  progress fun w hdevice he hcsn => by
    rw [SpiWrite.Exclusive, hdevice]
    exact Prod.ext he hcsn

end Initialised

theorem Starting.progress {total : Nat} : Progress .nokia3310 false false (Starting total)
    (fun s => Outcome total s.writes) where
  answered a b k writes h := ⟨by rw [h.total_eq]; omega, h.length_eq, h.both⟩
  written a b k writes w h _ he hcsn := by
    refine ⟨h.total_eq, by rw [List.length_append, h.length_eq]; rfl, fun x hx => ?_⟩
    rcases List.mem_append.mp hx with hold | hnew
    · exact h.both x hold
    · exact List.mem_singleton.mp hnew ▸ Prod.ext he hcsn
  hangs a ha s h := by
    have htotal := h.total_eq
    refine ⟨?_, s.writes, [], (List.append_nil _).symm, by rw [h.length_eq]; omega,
      fun hne => absurd rfl hne, h.both, fun w hw => absurd hw List.not_mem_nil⟩
    rw [← List.length_eq_zero_iff, h.length_eq]
    omega

/-! Every call returns with both lines high, and writes exclusively. -/

section Calls

open Waiting Kernel

variable {total : Nat}

/-- A computation keeps the two levels, and writes exclusively. -/
def KeepsLevels (lcdE nrfCsn : Bool) (total : Nat) {α : Type} (prog : Waiting Board α) : Prop :=
  Triple (Board.At lcdE nrfCsn fun _ => Initialised total) prog
    (fun _ => Board.At lcdE nrfCsn fun _ => Initialised total) (fun s => Outcome total s.writes)

theorem keepsLevels_await (lcdE nrfCsn : Bool) : KeepsLevels lcdE nrfCsn total Board.await :=
  triple_await (fun _ _ h => h) fun _ h => h.outcome

theorem keepsLevels_sendByte (data : UInt8) :
    KeepsLevels false true total (Nokia3310.sendByte data) :=
  triple_sendByte Initialised.progress_nokia3310 (Nat.zero_le 7) data

theorem keepsLevels_writeread (data : UInt8) :
    KeepsLevels true false total (Nrf24l01.writeread data) := by
  refine Triple.bind (keepsLevels_await true false) fun _ => ?_
  refine Triple.bind (triple_send _ (Initialised.progress_nrf24l01.written 0 0)) fun _ => ?_
  refine Triple.bind (keepsLevels_await true false) fun _ => ?_
  exact Triple.bind triple_receive fun _ => Triple.pure fun _ hs => hs

theorem keepsLevels_selectCommand : KeepsLevels false true total lcd.selectCommand :=
  Triple.bind (keepsLevels_await false true) fun _ => triple_reset lcd.lcdDs

theorem keepsLevels_selectData : KeepsLevels false true total lcd.selectData :=
  Triple.bind (keepsLevels_await false true) fun _ => triple_set lcd.lcdDs

theorem triple_disableSlaveSelect :
    Triple (Board.At false true fun _ => Initialised total)
      lcd.disableSlaveSelect
      (fun _ => Board.At true true fun _ => Initialised total)
      (fun s => Outcome total s.writes) :=
  Triple.bind (keepsLevels_await false true) fun _ => triple_set lcd.lcdE

theorem keepsLevels_setContrast (value : UInt8) :
    KeepsLevels true true total (lcd.setContrast value) := by
  refine Triple.bind (triple_reset lcd.lcdE) fun _ => ?_
  refine Triple.bind keepsLevels_selectCommand fun _ => ?_
  refine Triple.bind (keepsLevels_sendByte _) fun _ => ?_
  refine Triple.bind (keepsLevels_sendByte _) fun _ => ?_
  refine Triple.bind (keepsLevels_sendByte _) fun _ => ?_
  exact triple_disableSlaveSelect

theorem keepsLevels_update (size : Nat) (lcdbuf : Fin size → UInt8) :
    KeepsLevels true true total (lcd.update size lcdbuf) := by
  refine Triple.bind (triple_reset lcd.lcdE) fun _ => ?_
  refine Triple.bind keepsLevels_selectCommand fun _ => ?_
  refine Triple.bind (keepsLevels_sendByte _) fun _ => ?_
  refine Triple.bind (keepsLevels_sendByte _) fun _ => ?_
  refine Triple.bind keepsLevels_selectData fun _ => ?_
  refine Triple.bind (Triple.forM fun i _ => keepsLevels_sendByte (lcdbuf i)) fun _ => ?_
  exact triple_disableSlaveSelect

theorem keepsLevels_readRegister (reg : DevRegister) :
    KeepsLevels true true total (nrf.readRegister reg) := by
  refine Triple.bind (triple_reset nrf.nrfCsn) fun _ => ?_
  refine Triple.bind (keepsLevels_writeread _) fun _ => ?_
  refine Triple.bind (keepsLevels_writeread _) fun _ => ?_
  exact Triple.bind (triple_set nrf.nrfCsn) fun _ => Triple.pure fun _ hs => hs

theorem keepsLevels_writeRegister (reg : DevRegister) (data : UInt8) :
    KeepsLevels true true total (nrf.writeRegister reg data) := by
  refine Triple.bind (triple_reset nrf.nrfCsn) fun _ => ?_
  refine Triple.bind (keepsLevels_writeread _) fun _ => ?_
  refine Triple.bind (keepsLevels_writeread _) fun _ => ?_
  exact Triple.bind (triple_set nrf.nrfCsn) fun _ => Triple.pure fun _ hs => hs

theorem keepsLevels_readAddressRegister (reg : DevRegister) (retAddr : Fin 5 → UInt8) :
    KeepsLevels true true total (nrf.readAddressRegister reg retAddr) := by
  refine Triple.bind (triple_reset nrf.nrfCsn) fun _ => ?_
  refine Triple.bind (keepsLevels_writeread _) fun _ => ?_
  refine Triple.bind (Triple.foldlM (fun _ _ _ => Triple.bind (keepsLevels_writeread _)
    fun _ => Triple.pure fun _ hs => hs) retAddr) fun _ => ?_
  exact Triple.bind (triple_set nrf.nrfCsn) fun _ => Triple.pure fun _ hs => hs

theorem keepsLevels_writeAddressRegister (reg : DevRegister) (addr : Fin 5 → UInt8) :
    KeepsLevels true true total (nrf.writeAddressRegister reg addr) := by
  unfold Nrf24l01.writeAddressRegister
  split
  · refine Triple.bind (triple_reset nrf.nrfCsn) fun _ => ?_
    refine Triple.bind (keepsLevels_writeread _) fun _ => ?_
    refine Triple.bind (Triple.forM fun _ _ => Triple.bind (keepsLevels_writeread _)
      fun _ => Triple.pure fun _ hs => hs) fun _ => ?_
    exact triple_set nrf.nrfCsn
  · exact Triple.pure fun _ hs => hs

theorem keepsLevels_initWith (contrast tempCoeff bias : UInt8) :
    KeepsLevels true true total (lcd.initWith contrast tempCoeff bias) :=
  triple_initWith Initialised.progress_nokia3310 contrast tempCoeff bias

theorem keepsLevels_call (c : DriverCall) : KeepsLevels true true total (Kernel.call c) := by
  cases c with
  | lcdInitWith contrast tempCoeff bias => exact keepsLevels_initWith contrast tempCoeff bias
  | lcdInit => exact keepsLevels_initWith _ _ _
  | lcdEnable => exact triple_reconfigure _
  | lcdSetContrast value => exact keepsLevels_setContrast value
  | lcdUpdate lcdbuf => exact keepsLevels_update _ lcdbuf
  | nrfInit => exact Triple.bind (triple_set nrf.nrfCsn) fun _ => triple_reset nrf.nrfCe
  | nrfEnable => exact triple_reconfigure _
  | nrfReadRegister reg =>
      exact Triple.bind (keepsLevels_readRegister reg) fun _ => Triple.pure fun _ hs => hs
  | nrfWriteRegister reg data =>
      exact Triple.bind (keepsLevels_writeRegister reg data) fun _ =>
        Triple.pure fun _ hs => hs
  | nrfReadAddressRegister reg retAddr =>
      exact Triple.bind (keepsLevels_readAddressRegister reg retAddr) fun _ =>
        Triple.pure fun _ hs => hs
  | nrfWriteAddressRegister reg addr => exact keepsLevels_writeAddressRegister reg addr

/-- The loops of the clock are answered before anything is written. -/
theorem triple_clockLoop {j : Nat} (hj : j ≤ 7) :
    Triple (Board.At false false fun k writes => total = k + j ∧ writes = []) Board.await
      (fun _ => Board.At false false fun k writes => total = k + (j + 1) ∧ writes = [])
      (fun s => Outcome total s.writes) := by
  refine triple_await (fun k writes h => ⟨by omega, h.2⟩) fun s h => ?_
  rw [h.2]
  exact ⟨iff_of_true rfl (by omega), [], [], rfl, Nat.zero_le 7, fun hne => absurd rfl hne,
    fun w hw => absurd hw List.not_mem_nil, fun w hw => absurd hw List.not_mem_nil⟩

theorem triple_init : Triple (Board.At false false fun k writes => total = k + 0 ∧ writes = [])
    Kernel.init (fun _ => Board.At true true fun _ => Initialised total)
    (fun s => Outcome total s.writes) := by
  have hlcd : Triple (Board.At false false fun k writes => total = k + 6 ∧ writes = [])
      lcd.init (fun _ => Board.At true false (Starting total 9 7))
      (fun s => Outcome total s.writes) := by
    have hinit : Triple (Board.At false false (Starting total 0 0)) lcd.init _ _ :=
      triple_initWith Starting.progress _ _ _
    refine Triple.mono hinit (fun s hs => ?_) (fun _ _ h => h) fun _ h => h
    exact ⟨hs.lcdE, hs.nrfCsn, hs.known.1, by rw [hs.known.2]; rfl,
      fun w hw => absurd (hs.known.2 ▸ hw) List.not_mem_nil⟩
  refine Triple.bind (triple_set led) fun _ => ?_
  refine Triple.bind (Triple.bind (triple_clockLoop (by omega)) fun _ =>
    Triple.bind (triple_clockLoop (by omega)) fun _ =>
    Triple.bind (triple_clockLoop (by omega)) fun _ => triple_clockLoop (by omega)) fun _ => ?_
  refine Triple.bind (Triple.bind (triple_clockLoop (by omega)) fun _ =>
    triple_clockLoop (by omega)) fun _ => ?_
  refine Triple.bind hlcd fun _ => ?_
  refine Triple.bind (triple_set nrf.nrfCsn) fun _ => ?_
  refine Triple.mono (triple_reset nrf.nrfCe) (fun _ h => h) (fun _ s hs => ?_) fun _ h => h
  have htotal := hs.known.total_eq
  exact ⟨hs.lcdE, hs.nrfCsn, by omega, s.writes, [], (List.append_nil _).symm,
    hs.known.length_eq, hs.known.both, fun w hw => absurd hw List.not_mem_nil⟩

theorem triple_program (calls : List DriverCall) :
    Triple (Board.At false false fun k writes => total = k + 0 ∧ writes = []) (program calls)
      (fun _ => Board.At true true fun _ => Initialised total)
      (fun s => Outcome total s.writes) :=
  Triple.bind triple_init fun _ => Triple.forM fun c _ => keepsLevels_call c

theorem at_afterReset (answers : List Bool) (received : Nat → UInt16) :
    (afterReset answers received).At false false
      fun k writes => answers.count true = k + 0 ∧ writes = [] :=
  ⟨BitVec.getLsbD_zero, BitVec.getLsbD_zero, rfl, rfl⟩

theorem spiWrites_outcome (calls : List DriverCall) (answers : List Bool)
    (received : Nat → UInt16) :
    Outcome (answers.count true) (spiWrites calls answers received) := by
  have houtcome : Triple _ (program calls)
      (fun _ s => Outcome (answers.count true) s.writes) _ :=
    Triple.mono (triple_program calls) (fun _ h => h) (fun _ _ h => h.known.outcome) fun _ h => h
  exact Triple.last houtcome (at_afterReset answers received)

end Calls

theorem SpiWrite.BothSelected.not_exclusive {w : SpiWrite} (h : w.BothSelected) :
    ¬ w.Exclusive := by
  rw [Exclusive, show w.levels = (false, false) from h]
  cases w.device <;> decide

theorem Outcome.of_getElem? {total i : Nat} {writes : List SpiWrite} {w : SpiWrite}
    (h : Outcome total writes) (hw : writes[i]? = some w) :
    (i < 7 ∧ w.BothSelected) ∨ (7 ≤ i ∧ w.Exclusive) := by
  obtain ⟨first, rest, rfl, hle, hlength, hfirst, hrest⟩ := h.split
  rcases Nat.lt_or_ge i first.length with hlt | hge
  · rw [List.getElem?_append_left hlt] at hw
    exact .inl ⟨hlt.trans_le hle, hfirst w (List.mem_of_getElem? hw)⟩
  · rw [List.getElem?_append_right hge] at hw
    have hmem := List.mem_of_getElem? hw
    rw [hlength (List.ne_nil_of_mem hmem)] at hge
    exact .inr ⟨hge, hrest w hmem⟩

/-- Until the hardware has ended eight loops nothing is written.  Of what is written the
first seven bytes, the commands of the initialisation, go to both chips, and all others to
the chip of their driver. -/
theorem spiWrites_exclusive_iff (calls : List DriverCall) (answers : List Bool)
    (received : Nat → UInt16) :
    ((∀ w ∈ Kernel.spiWrites calls answers received, w.Exclusive) ↔ answers.count true < 8) ∧
    ∀ i w, (Kernel.spiWrites calls answers received)[i]? = some w →
      (w.Exclusive ↔ 7 ≤ i) ∧ (i < 7 → w.BothSelected) := by
  have houtcome := spiWrites_outcome calls answers received
  refine ⟨?_, fun i w hw => ?_⟩
  · rw [← houtcome.empty_iff]
    constructor
    · intro hall
      by_contra hne
      obtain ⟨w, rest, hwrites⟩ := List.exists_cons_of_ne_nil hne
      rcases houtcome.of_getElem? (i := 0) (by rw [hwrites]; rfl) with ⟨-, hboth⟩ | ⟨hge, -⟩
      · exact hboth.not_exclusive (hall w (hwrites ▸ List.mem_cons_self))
      · exact absurd hge (by decide)
    · intro hnil w hw
      exact absurd (hnil ▸ hw) List.not_mem_nil
  · rcases houtcome.of_getElem? hw with ⟨hlt, hboth⟩ | ⟨hge, hexclusive⟩
    · exact ⟨iff_of_false hboth.not_exclusive (Nat.not_le.mpr hlt), fun _ => hboth⟩
    · exact ⟨iff_of_true hexclusive hge, fun hlt => absurd hge (Nat.not_le.mpr hlt)⟩

namespace ChipSelectTest

/-- NRF_CSN leaves its reset level only after the display has been initialised. -/
theorem spiWrites_init_not_exclusive :
    ¬ ∀ w ∈ Kernel.spiWrites [] (List.replicate 15 true) (fun _ => 0), w.Exclusive := by
  decide +kernel

end ChipSelectTest

end OpenMptl
