/-
What the demo's loop sends to the display.  However long the bus makes it wait, and however
often the `nrf` command runs in between and configures the bus for its own chip, each turn
transfers its picture whole, commands and data apart, in the configuration of the display,
and no other chip listens.
-/
import Mathlib.Data.Fin.VecNotation
import OpenMptl.ChipSelect
import OpenMptl.KernelLoop

namespace OpenMptl

/-- A byte as the controller of the display takes it: with the level of LCD_DS. -/
structure LcdByte where
  lcdDs : Bool
  data : UInt8
deriving DecidableEq

/-- What the chip of a driver is clocked with: 8 bits, the highest first, in the mode 3 at
72 MHz / 32 for the display, which never answers, and in the mode 0 at 72 MHz / 16. -/
def SpiDevice.cr1 : SpiDevice → SpiCr1
  | .nokia3310 =>
      { SpiCr1.reset with
        cpha := true, cpol := true, mstr := true, br := 4, spe := true
        ssi := true, ssm := true, bidioe := true, bidimode := true }
  | .nrf24l01 =>
      { SpiCr1.reset with
        mstr := true, br := 3, spe := true
        ssi := true, ssm := true }

namespace SpiWrite

def lcdByte (w : SpiWrite) : LcdByte := ⟨w.odr.level Kernel.lcd.lcdDs, w.data.toUInt8⟩

/-- The bus is configured for the chip of the driver. -/
def Configured (w : SpiWrite) : Prop := w.cr1 = w.device.cr1

/-- The display is selected, and clocked as it has to be. -/
def LcdTakes (w : SpiWrite) : Prop :=
  w.odr.level Kernel.lcd.lcdE = false ∧ w.cr1 = SpiDevice.nokia3310.cr1

instance (w : SpiWrite) : Decidable w.LcdTakes := inferInstanceAs (Decidable (_ ∧ _))

/-- What the display takes of the writes. -/
def lcdBytes (writes : List SpiWrite) : List LcdByte :=
  (writes.filter fun w => w.LcdTakes).map lcdByte

theorem lcdBytes_singleton (w : SpiWrite) :
    lcdBytes [w] = if w.LcdTakes then [w.lcdByte] else [] := by
  rw [lcdBytes, List.filter_singleton]
  by_cases h : w.LcdTakes
  · rw [if_pos h, decide_eq_true h]
    rfl
  · rw [if_neg h, decide_eq_false h]
    rfl

end SpiWrite

/-- The transfer of a picture: two commands, and the buffer as data. -/
def Nokia3310.frame {size : Nat} (lcdbuf : Fin size → UInt8) : List LcdByte :=
  [⟨false, 0x80⟩, ⟨false, 0x40⟩] ++ (List.finRange size).map fun i => ⟨true, lcdbuf i⟩

namespace DevRegister

def config : DevRegister := ⟨0x00⟩

def status : DevRegister := ⟨0x07⟩

end DevRegister

/-- `terminal_hooks::nrf_test::run()`, without what it prints. -/
def NrfTest.run : Waiting Board Unit := do
  Nrf24l01.enable
  let _ ← Kernel.nrf.readRegister .status
  let _ ← Kernel.nrf.writeRegister .config 0x0b
  let _ ← Kernel.nrf.readRegister .config
  Kernel.nrf.writeAddressRegister .rxAddrP0 ![5, 6, 7, 8, 9]
  let _ ← Kernel.nrf.readAddressRegister .rxAddrP0 fun _ => 0

/-- A turn of the loop: how often the terminal runs the command, and what is read. -/
structure BusTurn where
  nrfTests : Nat
  input : LoopInput

/-- The loop of `Kernel::run()` with what it does on the bus. -/
def Kernel.loop (s : LcdScreen) (k : KernelLoop) :
    List BusTurn → Waiting Board (Option KernelLoop)
  | [] => return some k
  | turn :: turns =>
      match k.turn s turn.input with
      | none => return none
      | some k => do
          (List.range turn.nrfTests).forM fun _ => NrfTest.run
          Nokia3310.enable
          lcd.update Nokia3310.lcdbufSize fun i => k.lcdbuf.cells i
          loop s k turns

namespace LoopView

/-- The transfer of the picture that shows the view. -/
def frame (f : LcdFont) (v : LoopView) : List LcdByte :=
  Nokia3310.frame fun i : Fin Nokia3310.lcdbufSize =>
    Screen.picture f (v.lines.drop (v.turns % 8).toNat) (i / 84) (i % 84 / 6) (i % 6)

/-- One transfer for each turn. -/
def frames (f : LcdFont) (v : LoopView) : List LoopInput → List LcdByte
  | [] => []
  | input :: inputs => (v.next input).frame f ++ (v.next input).frames f inputs

end LoopView

/-- The polling loops in the transfer of a picture. -/
def Nokia3310.frameLoops : Nat := 5 + lcdbufSize

/-- The polling loops in `nrf_test::run()`. -/
def NrfTest.loops : Nat := 36

def BusTurn.loops (turn : BusTurn) : Nat := turn.nrfTests * NrfTest.loops + Nokia3310.frameLoops

/-- The polling loops in all turns. -/
def BusTurn.loopsAll (turns : List BusTurn) : Nat := (turns.map loops).sum

/-! How far the transfers have come. -/

namespace Board

/-- New writes, each for one chip, of which the display has taken the bytes `sent`. -/
def Wrote (before : List SpiWrite) (sent : List LcdByte) (s : Board) : Prop :=
  ∃ new, s.writes = before ++ new ∧ SpiWrite.lcdBytes new = sent ∧
    ∀ w ∈ new, w.Exclusive ∧ w.Configured

/-- The lines of the two chips, the driver that has configured the bus, the loops that have
ended, and the bytes. -/
structure Sending (total : Nat) (before : List SpiWrite) (lcdE nrfCsn : Bool)
    (lcdDs : Option Bool) (user : Option SpiDevice) (used : Nat) (sent : List LcdByte)
    (s : Board) : Prop where
  lcdE : s.odr.level Kernel.lcd.lcdE = lcdE
  nrfCsn : s.odr.level Kernel.nrf.nrfCsn = nrfCsn
  lcdDs : ∀ level ∈ lcdDs, s.odr.level Kernel.lcd.lcdDs = level
  cr1 : ∀ device ∈ user, s.cr1 = device.cr1
  answered : s.answered + used = total
  wrote : s.Wrote before sent

/-- A loop waits forever, because there are too few answers for all loops. -/
def Stuck (total : Nat) (before : List SpiWrite) (needed : Nat) (all : List LcdByte)
    (s : Board) : Prop :=
  total < needed ∧ ∃ sent, sent <+: all ∧ s.Wrote before sent

section Transfer

open Waiting

variable {total used needed : Nat} {before : List SpiWrite} {lcdE nrfCsn : Bool}
  {lcdDs : Option Bool} {user : Option SpiDevice} {sent all : List LcdByte}

theorem Sending.forget {s : Board}
    (h : Sending total before lcdE nrfCsn lcdDs user used sent s) :
    Sending total before lcdE nrfCsn none none used sent s :=
  ⟨h.lcdE, h.nrfCsn, fun _ hlevel => (nomatch hlevel), fun _ huser => (nomatch huser),
    h.answered, h.wrote⟩

/-- A store that gives one pin its level. -/
theorem Sending.drive {s t : Board} {pin : Gpio} {level : Bool}
    (h : Sending total before lcdE nrfCsn lcdDs user used sent s)
    (hodr : ∀ other, t.odr.level other = if other = pin then level else s.odr.level other)
    (hcr1 : t.cr1 = s.cr1) (hanswers : t.answers = s.answers) (hwrites : t.writes = s.writes) :
    Sending total before (if Kernel.lcd.lcdE = pin then level else lcdE)
      (if Kernel.nrf.nrfCsn = pin then level else nrfCsn)
      (if Kernel.lcd.lcdDs = pin then some level else lcdDs) user used sent t := by
  refine ⟨?_, ?_, fun other hother => ?_, fun device hdevice => ?_, ?_, ?_⟩
  · rw [hodr, h.lcdE]
  · rw [hodr, h.nrfCsn]
  · rw [hodr]
    split at hother
    · next hpin => rw [if_pos hpin, Option.mem_some.mp hother]
    · next hpin => rw [if_neg hpin, h.lcdDs other hother]
  · rw [hcr1, h.cr1 device hdevice]
  · rw [Board.answered, hanswers]
    exact h.answered
  · rw [Wrote, hwrites]
    exact h.wrote

theorem Sending.set (pin : Gpio) :
    Triple (Sending total before lcdE nrfCsn lcdDs user used sent) pin.set
      (fun _ => Sending total before (if Kernel.lcd.lcdE = pin then true else lcdE)
        (if Kernel.nrf.nrfCsn = pin then true else nrfCsn)
        (if Kernel.lcd.lcdDs = pin then some true else lcdDs) user used sent)
      (Stuck total before needed all) :=
  Triple.modify fun s h => h.drive (level_set s.odr pin) rfl rfl rfl

theorem Sending.reset (pin : Gpio) :
    Triple (Sending total before lcdE nrfCsn lcdDs user used sent) pin.reset
      (fun _ => Sending total before (if Kernel.lcd.lcdE = pin then false else lcdE)
        (if Kernel.nrf.nrfCsn = pin then false else nrfCsn)
        (if Kernel.lcd.lcdDs = pin then some false else lcdDs) user used sent)
      (Stuck total before needed all) :=
  Triple.modify fun s h => h.drive (level_reset s.odr pin) rfl rfl rfl

/-- The bus changes its user. -/
theorem Sending.reconfigure {traits : List (SpiCr1 → SpiCr1)} {device : SpiDevice}
    (hcr1 : (Spi.spe :: traits).foldl (fun r set => set r) .reset = device.cr1) :
    Triple (Sending total before lcdE nrfCsn lcdDs user used sent) (Spi.reconfigure traits)
      (fun _ => Sending total before lcdE nrfCsn lcdDs (some device) used sent)
      (Stuck total before needed all) := by
  have hdisable : Triple (Sending total before lcdE nrfCsn lcdDs user used sent) Spi.disable
      (fun _ => Sending total before lcdE nrfCsn lcdDs none used sent)
      (Stuck total before needed all) :=
    Triple.modify fun _ h =>
      ⟨h.lcdE, h.nrfCsn, h.lcdDs, fun _ huser => (nomatch huser), h.answered, h.wrote⟩
  refine Triple.bind hdisable fun _ => Triple.modify fun _ h =>
    ⟨h.lcdE, h.nrfCsn, h.lcdDs, fun other hother => ?_, h.answered, h.wrote⟩
  rw [← Option.mem_some.mp hother]
  exact hcr1

theorem Sending.enable_nokia3310 :
    Triple (Sending total before lcdE nrfCsn lcdDs user used sent) Nokia3310.enable
      (fun _ => Sending total before lcdE nrfCsn lcdDs (some .nokia3310) used sent)
      (Stuck total before needed all) :=
  Sending.reconfigure (by decide)

theorem Sending.enable_nrf24l01 :
    Triple (Sending total before lcdE nrfCsn lcdDs user used sent) Nrf24l01.enable
      (fun _ => Sending total before lcdE nrfCsn lcdDs (some .nrf24l01) used sent)
      (Stuck total before needed all) :=
  Sending.reconfigure (by decide)

theorem Sending.await (hused : used < needed) (hsent : sent <+: all) :
    Triple (Sending total before lcdE nrfCsn lcdDs user used sent) Board.await
      (fun _ => Sending total before lcdE nrfCsn lcdDs user (used + 1) sent)
      (Stuck total before needed all) := by
  intro s h
  have hanswered := h.answered
  rw [Board.answered] at hanswered
  rw [Board.await]
  cases hanswers : nextAnswers s.answers with
  | none =>
      rw [nextAnswers_eq_none hanswers] at hanswered
      exact ⟨by omega, sent, hsent, h.wrote⟩
  | some rest =>
      rw [nextAnswers_eq_some hanswers] at hanswered
      refine ⟨h.lcdE, h.nrfCsn, h.lcdDs, h.cr1, ?_, h.wrote⟩
      change rest.count true + (used + 1) = total
      omega

theorem Wrote.append {s t : Board} {w : SpiWrite} {bytes : List LcdByte}
    (h : s.Wrote before sent) (ht : t.writes = s.writes ++ [w])
    (hbytes : SpiWrite.lcdBytes [w] = bytes) (hw : w.Exclusive ∧ w.Configured) :
    t.Wrote before (sent ++ bytes) := by
  obtain ⟨new, hwrites, hnew, hall⟩ := h
  refine ⟨new ++ [w], ?_, ?_, fun x hx => ?_⟩
  · rw [ht, hwrites, List.append_assoc]
  · rw [SpiWrite.lcdBytes, List.filter_append, List.map_append]
    exact congrArg₂ (· ++ ·) hnew hbytes
  · rcases List.mem_append.mp hx with hold | hlast
    · exact hall x hold
    · exact List.mem_singleton.mp hlast ▸ hw

/-- A byte goes to the display with the level that LCD_DS has. -/
theorem Sending.sendByte {level : Bool} (hused : used < needed) (hsent : sent <+: all)
    (data : UInt8) :
    Triple (Sending total before false true (some level) (some .nokia3310) used sent)
      (Nokia3310.sendByte data)
      (fun _ => Sending total before false true (some level) (some .nokia3310) (used + 1)
        (sent ++ [⟨level, data⟩]))
      (Stuck total before needed all) := by
  refine Triple.bind (Sending.await hused hsent) fun _ => Triple.modify fun s h => ?_
  have hcr1 : s.cr1 = SpiDevice.nokia3310.cr1 := h.cr1 _ rfl
  refine ⟨h.lcdE, h.nrfCsn, h.lcdDs, h.cr1, h.answered,
    h.wrote.append rfl ?_ ⟨Prod.ext h.lcdE h.nrfCsn, hcr1⟩⟩
  rw [SpiWrite.lcdBytes_singleton, if_pos ⟨h.lcdE, hcr1⟩]
  change [LcdByte.mk (s.odr.level Kernel.lcd.lcdDs) data.toUInt16.toUInt8] = _
  rw [h.lcdDs level rfl, UInt8.toUInt8_toUInt16]

/-- A byte of the other chip. -/
theorem Sending.writeread (hused : used + 2 ≤ needed) (hsent : sent <+: all) (data : UInt8) :
    Triple (Sending total before true false lcdDs (some .nrf24l01) used sent)
      (Nrf24l01.writeread data)
      (fun _ => Sending total before true false lcdDs (some .nrf24l01) (used + 2) sent)
      (Stuck total before needed all) := by
  have hsend : Triple (Sending total before true false lcdDs (some .nrf24l01) (used + 1) sent)
      (Spi.send .nrf24l01 data.toUInt16)
      (fun _ => Sending total before true false lcdDs (some .nrf24l01) (used + 1) sent)
      (Stuck total before needed all) := by
    refine Triple.modify fun s h => ⟨h.lcdE, h.nrfCsn, h.lcdDs, h.cr1, h.answered, ?_⟩
    have hdeaf : ¬ (SpiWrite.mk .nrf24l01 data.toUInt16 s.odr s.cr1).LcdTakes :=
      fun htakes => Bool.false_ne_true (htakes.1.symm.trans h.lcdE)
    have hbytes : SpiWrite.lcdBytes [⟨.nrf24l01, data.toUInt16, s.odr, s.cr1⟩] = [] := by
      rw [SpiWrite.lcdBytes_singleton, if_neg hdeaf]
    have hwrote := h.wrote.append (t := { s with
      writes := s.writes ++ [⟨.nrf24l01, data.toUInt16, s.odr, s.cr1⟩] }) rfl hbytes
      ⟨Prod.ext h.lcdE h.nrfCsn, h.cr1 _ rfl⟩
    exact List.append_nil sent ▸ hwrote
  refine Triple.bind (Sending.await (by omega) hsent) fun _ => ?_
  refine Triple.bind hsend fun _ => ?_
  refine Triple.bind (Sending.await (by omega) hsent) fun _ => ?_
  exact Triple.of_eq fun s h => ⟨_, _, rfl, h.lcdE, h.nrfCsn, h.lcdDs, h.cr1, h.answered, h.wrote⟩

/-- The bytes of the buffer, one after the other. -/
theorem Sending.sendData {γ : Type} {byte : γ → UInt8} {xs : List γ} {size : Nat}
    {taken : List LcdByte} (hsize : size = xs.length)
    (htaken : taken = xs.map fun x => ⟨true, byte x⟩) (hused : used + size ≤ needed)
    (hsent : sent ++ taken <+: all) :
    Triple (Sending total before false true (some true) (some .nokia3310) used sent)
      (xs.forM fun x => Nokia3310.sendByte (byte x))
      (fun _ => Sending total before false true (some true) (some .nokia3310) (used + size)
        (sent ++ taken))
      (Stuck total before needed all) := by
  subst hsize htaken
  let inv (done : List γ) : Board → Prop := Sending total before false true (some true)
    (some .nokia3310) (used + done.length) (sent ++ done.map fun x => ⟨true, byte x⟩)
  have hloop : Triple (inv []) (xs.forM fun x => Nokia3310.sendByte (byte x))
      (fun _ => inv xs) (Stuck total before needed all) := by
    refine Triple.forM_prefix inv fun done x rest hdone => ?_
    subst hdone
    simp only [inv]
    rw [List.length_append, List.length_cons] at hused
    rw [List.map_append, ← List.append_assoc] at hsent
    rw [List.length_append, List.map_append, ← List.append_assoc]
    exact Sending.sendByte (by omega) ((List.prefix_append _ _).trans hsent) _
  simpa only [inv, List.length_nil, Nat.add_zero, List.map_nil, List.append_nil] using hloop

/-- One picture is transferred whole. -/
theorem Sending.update {size : Nat} (lcdbuf : Fin size → UInt8)
    (hused : used + (5 + size) ≤ needed) (hsent : sent ++ Nokia3310.frame lcdbuf <+: all) :
    Triple (Sending total before true true lcdDs (some .nokia3310) used sent)
      (Kernel.lcd.update size lcdbuf)
      (fun _ => Sending total before true true (some true) (some .nokia3310)
        (used + (5 + size)) (sent ++ Nokia3310.frame lcdbuf))
      (Stuck total before needed all) := by
  have hframe : sent ++ Nokia3310.frame lcdbuf = sent ++ [⟨false, 0x80⟩] ++ [⟨false, 0x40⟩] ++
      (List.finRange size).map fun i => ⟨true, lcdbuf i⟩ := by
    rw [Nokia3310.frame, List.append_assoc, List.append_assoc]
    rfl
  rw [hframe] at hsent
  have hcommands := (List.prefix_append _ _).trans hsent
  have hcommand := (List.prefix_append _ _).trans hcommands
  have hnone := (List.prefix_append _ _).trans hcommand
  rw [hframe, show used + (5 + size) = used + 1 + 1 + 1 + 1 + size + 1 by omega]
  refine Triple.bind (Sending.reset Kernel.lcd.lcdE) fun _ => ?_
  refine Triple.bind (Triple.bind (Sending.await (by omega) hnone) fun _ =>
    Sending.reset Kernel.lcd.lcdDs) fun _ => ?_
  refine Triple.bind (Sending.sendByte (by omega) hnone 0x80) fun _ => ?_
  refine Triple.bind (Sending.sendByte (by omega) hcommand 0x40) fun _ => ?_
  refine Triple.bind (Triple.bind (Sending.await (by omega) hcommands) fun _ =>
    Sending.set Kernel.lcd.lcdDs) fun _ => ?_
  refine Triple.bind (Sending.sendData List.length_finRange.symm rfl (by omega) hsent) fun _ => ?_
  exact Triple.bind (Sending.await (by omega) hsent) fun _ => Sending.set Kernel.lcd.lcdE

/-- The other chip is read and written. -/
theorem Sending.readRegister (reg : DevRegister) (hused : used + 4 ≤ needed)
    (hsent : sent <+: all) :
    Triple (Sending total before true true lcdDs (some .nrf24l01) used sent)
      (Kernel.nrf.readRegister reg)
      (fun _ => Sending total before true true lcdDs (some .nrf24l01) (used + 4) sent)
      (Stuck total before needed all) := by
  refine Triple.bind (Sending.reset Kernel.nrf.nrfCsn) fun _ => ?_
  refine Triple.bind (Sending.writeread (by omega) hsent _) fun _ => ?_
  refine Triple.bind (Sending.writeread (by omega) hsent _) fun _ => ?_
  exact Triple.bind (Sending.set Kernel.nrf.nrfCsn) fun _ => Triple.pure fun _ h => h

theorem Sending.writeRegister (reg : DevRegister) (data : UInt8) (hused : used + 4 ≤ needed)
    (hsent : sent <+: all) :
    Triple (Sending total before true true lcdDs (some .nrf24l01) used sent)
      (Kernel.nrf.writeRegister reg data)
      (fun _ => Sending total before true true lcdDs (some .nrf24l01) (used + 4) sent)
      (Stuck total before needed all) := by
  refine Triple.bind (Sending.reset Kernel.nrf.nrfCsn) fun _ => ?_
  refine Triple.bind (Sending.writeread (by omega) hsent _) fun _ => ?_
  refine Triple.bind (Sending.writeread (by omega) hsent _) fun _ => ?_
  exact Triple.bind (Sending.set Kernel.nrf.nrfCsn) fun _ => Triple.pure fun _ h => h

theorem Sending.writeAddressRegister (addr : Fin 5 → UInt8) (hused : used + 12 ≤ needed)
    (hsent : sent <+: all) :
    Triple (Sending total before true true lcdDs (some .nrf24l01) used sent)
      (Kernel.nrf.writeAddressRegister .rxAddrP0 addr)
      (fun _ => Sending total before true true lcdDs (some .nrf24l01) (used + 12) sent)
      (Stuck total before needed all) := by
  have hbytes : Triple
      (Sending total before true false lcdDs (some .nrf24l01) (used + 2 + 2 * 0) sent)
      ((List.finRange 5).forM fun i => do let _ ← Nrf24l01.writeread (addr i))
      (fun _ => Sending total before true false lcdDs (some .nrf24l01) (used + 2 + 2 * 5) sent)
      (Stuck total before needed all) := by
    refine Triple.forM_prefix (fun done => Sending total before true false lcdDs
      (some .nrf24l01) (used + 2 + 2 * done.length) sent) fun done i rest hdone => ?_
    have hlength := congrArg List.length hdone
    rw [List.length_append, List.length_cons, List.length_finRange] at hlength
    rw [List.length_append]
    exact Triple.bind (Sending.writeread (by omega) hsent _) fun _ => Triple.pure fun _ h => h
  refine Triple.bind (Sending.reset Kernel.nrf.nrfCsn) fun _ => ?_
  refine Triple.bind (Sending.writeread (by omega) hsent _) fun _ => ?_
  exact Triple.bind hbytes fun _ => Sending.set Kernel.nrf.nrfCsn

theorem Sending.readAddressRegister (reg : DevRegister) (retAddr : Fin 5 → UInt8)
    (hused : used + 12 ≤ needed) (hsent : sent <+: all) :
    Triple (Sending total before true true lcdDs (some .nrf24l01) used sent)
      (Kernel.nrf.readAddressRegister reg retAddr)
      (fun _ => Sending total before true true lcdDs (some .nrf24l01) (used + 12) sent)
      (Stuck total before needed all) := by
  have hbytes : Triple
      (Sending total before true false lcdDs (some .nrf24l01) (used + 2 + 2 * 0) sent)
      ((List.finRange 5).foldlM (fun buf i => do
        return Function.update buf i (← Nrf24l01.writeread Nrf24l01.nop)) retAddr)
      (fun _ => Sending total before true false lcdDs (some .nrf24l01) (used + 2 + 2 * 5) sent)
      (Stuck total before needed all) := by
    refine Triple.foldlM_prefix (fun done => Sending total before true false lcdDs
      (some .nrf24l01) (used + 2 + 2 * done.length) sent) (fun buf done i rest hdone => ?_) retAddr
    have hlength := congrArg List.length hdone
    rw [List.length_append, List.length_cons, List.length_finRange] at hlength
    rw [List.length_append]
    exact Triple.bind (Sending.writeread (by omega) hsent _) fun _ => Triple.pure fun _ h => h
  refine Triple.bind (Sending.reset Kernel.nrf.nrfCsn) fun _ => ?_
  refine Triple.bind (Sending.writeread (by omega) hsent _) fun _ => ?_
  refine Triple.bind hbytes fun _ => ?_
  exact Triple.bind (Sending.set Kernel.nrf.nrfCsn) fun _ => Triple.pure fun _ h => h

theorem Sending.nrfTest (hused : used + NrfTest.loops ≤ needed) (hsent : sent <+: all) :
    Triple (Sending total before true true lcdDs user used sent) NrfTest.run
      (fun _ => Sending total before true true lcdDs (some .nrf24l01) (used + NrfTest.loops) sent)
      (Stuck total before needed all) := by
  rw [NrfTest.loops] at hused
  refine Triple.bind Sending.enable_nrf24l01 fun _ => ?_
  refine Triple.bind (Sending.readRegister _ (by omega) hsent) fun _ => ?_
  refine Triple.bind (Sending.writeRegister _ _ (by omega) hsent) fun _ => ?_
  refine Triple.bind (Sending.readRegister _ (by omega) hsent) fun _ => ?_
  refine Triple.bind (Sending.writeAddressRegister _ (by omega) hsent) fun _ => ?_
  exact Triple.bind (Sending.readAddressRegister _ _ (by omega) hsent) fun _ =>
    Triple.pure fun _ h => h

/-- The command runs between two pictures, as often as the user likes. -/
theorem Sending.nrfTests (n : Nat) (hused : used + n * NrfTest.loops ≤ needed)
    (hsent : sent <+: all) :
    Triple (Sending total before true true none none used sent)
      ((List.range n).forM fun _ => NrfTest.run)
      (fun _ => Sending total before true true none none (used + n * NrfTest.loops) sent)
      (Stuck total before needed all) := by
  let inv (done : List Nat) : Board → Prop :=
    Sending total before true true none none (used + done.length * NrfTest.loops) sent
  have hloop : Triple (inv []) ((List.range n).forM fun _ => NrfTest.run)
      (fun _ => inv (List.range n)) (Stuck total before needed all) := by
    refine Triple.forM_prefix inv fun done x rest hdone => ?_
    have hlength := congrArg List.length hdone
    rw [List.length_append, List.length_cons, List.length_range] at hlength
    simp only [inv]
    rw [List.length_append, List.length_singleton, Nat.succ_mul, ← Nat.add_assoc]
    refine Triple.mono (Sending.nrfTest (le_trans ?_ hused) hsent) (fun _ h => h)
      (fun _ _ h => h.forget) fun _ h => h
    rw [Nat.add_assoc, ← Nat.succ_mul]
    exact Nat.add_le_add_left (Nat.mul_le_mul_right _ (by omega)) used
  simpa only [inv, List.length_nil, Nat.zero_mul, Nat.add_zero, List.length_range] using hloop

end Transfer

end Board

section Loop

open Waiting KernelLoop

variable {font : Nat → Nat → UInt8} {fontIllegalChar : Nat → UInt8} {charIsSigned : Bool}
  {total needed : Nat} {before : List SpiWrite} {all : List LcdByte}

/-- The buffer that shows a view is transferred as the picture of the view. -/
theorem KernelLoop.Displays.frame {f : LcdFont} {v : LoopView} {lcdbuf : Nat → UInt8}
    (h : Displays f v lcdbuf) :
    Nokia3310.frame (fun i : Fin Nokia3310.lcdbufSize => lcdbuf i) = v.frame f := by
  refine congrArg Nokia3310.frame (funext fun i => ?_)
  have hi : i.val < 504 := i.isLt
  rw [← h (i.val % 84 / 6) (i.val / 84) (i.val % 6) (by omega) (by omega) (by omega)]
  exact congrArg lcdbuf (by omega)

/-- The loop shows one view after the other. -/
theorem triple_loop (turns : List BusTurn) {v : LoopView} {k : KernelLoop} (hk : Agrees v k)
    {used : Nat} {sent : List LcdByte} (hused : used + BusTurn.loopsAll turns ≤ needed)
    (hsent : sent ++ v.frames (LcdScreen.nokia3310 font fontIllegalChar charIsSigned).font
      (turns.map BusTurn.input) <+: all) :
    Triple (Board.Sending total before true true none none used sent)
      (Kernel.loop (.nokia3310 font fontIllegalChar charIsSigned) k turns)
      (fun k' s => k'.isSome ∧ Board.Sending total before true true none none
        (used + BusTurn.loopsAll turns)
        (sent ++ v.frames (LcdScreen.nokia3310 font fontIllegalChar charIsSigned).font
          (turns.map BusTurn.input)) s)
      (Board.Stuck total before needed all) := by
  induction turns generalizing v k used sent with
  | nil =>
      refine Triple.pure fun s hs => ⟨rfl, ?_⟩
      rw [List.map_nil, LoopView.frames, List.append_nil]
      exact hs
  | cons turn turns ih =>
      obtain ⟨k', hturn, hk', hdisplays⟩ := @Agrees.turn _ _ font fontIllegalChar charIsSigned
        hk turn.input
      have hall : BusTurn.loopsAll (turn :: turns) = turn.nrfTests * NrfTest.loops +
          (5 + Nokia3310.lcdbufSize) + BusTurn.loopsAll turns := List.sum_cons
      rw [List.map_cons, LoopView.frames, ← List.append_assoc, ← hdisplays.frame] at hsent ⊢
      rw [hall, ← Nat.add_assoc, ← Nat.add_assoc] at hused ⊢
      rw [Kernel.loop, hturn]
      have hframe := (List.prefix_append _ _).trans hsent
      have hnone := (List.prefix_append _ _).trans hframe
      refine Triple.bind (Board.Sending.nrfTests _ (by omega) hnone) fun _ => ?_
      refine Triple.bind Board.Sending.enable_nokia3310 fun _ => ?_
      refine Triple.bind (Board.Sending.update _ (by omega) hframe) fun _ => ?_
      exact Triple.mono (ih hk' hused hsent) (fun _ h => h.forget) (fun _ _ h => h) fun _ h => h

/-- Both lines are high when the loop starts. -/
theorem sending_start {calls : List DriverCall} {answers : List Bool} {received : Nat → UInt16}
    {s : Board} (hs : (Kernel.program calls (Kernel.afterReset answers received)).2 = s)
    (hreturns : (Kernel.program calls (Kernel.afterReset answers received)).1.isSome) :
    s.Sending s.answered s.writes true true none none 0 [] := by
  have hprogram := triple_program calls _ (at_afterReset answers received)
  split at hprogram
  · next t heq =>
      rw [heq] at hs
      subst hs
      exact ⟨hprogram.lcdE, hprogram.nrfCsn, fun _ hlevel => (nomatch hlevel),
        fun _ huser => (nomatch huser), rfl, [],
        (List.append_nil _).symm, rfl, fun w hw => absurd hw List.not_mem_nil⟩
  · next t heq =>
      rw [heq] at hreturns
      cases hreturns

end Loop

namespace LcdTransferTest

/-- Enough answers for the initialisation and for one turn. -/
def answers : List Bool := List.replicate 560 true

/-- The `nrf` command runs once, and configures the bus for itself. -/
def turns : List BusTurn := [⟨1, ⟨some .up, true, 1, 2, 3, 4, 5⟩⟩]

end LcdTransferTest

end OpenMptl
