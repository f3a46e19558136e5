/-
The memory layout of a linked program.  The linker scripts place the code and the
initial values of the data in the flash memory; the data itself, the zeroed data and
what is left for the heap follow each other in the RAM.
-/
import OpenMptl.MemoryBlock

namespace OpenMptl

/-- `ALIGN(4)` -/
def align4 (addr : Nat) : Nat := (addr + 3) / 4 * 4

theorem le_align4 (addr : Nat) : addr ≤ align4 addr := by
  rw [align4]
  omega

theorem align4_dvd (addr : Nat) : 4 ∣ align4 addr := Nat.dvd_mul_left 4 _

theorem align4_of_dvd {addr : Nat} (h : 4 ∣ addr) : align4 addr = addr := by
  rw [align4]
  omega

/-- The two linker scripts. -/
inductive LinkerScript
  | stm32f10xFlashMd
  | stm32f40xFlash
deriving DecidableEq, Repr

namespace LinkerScript

/-- `ORIGIN(FLASH)` -/
def flashOrigin (_script : LinkerScript) : Nat := 0x08000000

/-- `LENGTH(FLASH)` -/
def flashLength : LinkerScript → Nat
  | .stm32f10xFlashMd => 128 * 1024
  | .stm32f40xFlash => 1024 * 1024

/-- `ORIGIN(RAM)` -/
def ramOrigin (_script : LinkerScript) : Nat := 0x20000000

/-- `LENGTH(RAM)` -/
def ramLength : LinkerScript → Nat
  | .stm32f10xFlashMd => 20 * 1024
  | .stm32f40xFlash => 128 * 1024

/-- `_eram` -/
def eram (script : LinkerScript) : Nat := script.ramOrigin + script.ramLength

/-- `_stack_top`; the second script puts the stack into the core coupled memory. -/
def stackTop : LinkerScript → Nat
  | .stm32f10xFlashMd => eram .stm32f10xFlashMd
  | .stm32f40xFlash => 0x10000000 + 64 * 1024

theorem flash_below_ram (script : LinkerScript) :
    script.flashOrigin + script.flashLength ≤ script.ramOrigin := by
  cases script <;> decide

end LinkerScript

/-- The symbols that `crt.hpp` expects from the linker script. -/
structure LinkerSymbols where
  dataLma : Nat
  sdata : Nat
  edata : Nat
  sbss : Nat
  ebss : Nat
  preinitArrayStart : Nat
  preinitArrayEnd : Nat
  initArrayStart : Nat
  initArrayEnd : Nat
  finiArrayStart : Nat
  finiArrayEnd : Nat

/-- What the object files contribute to the output sections: the functions of the
three arrays, the initial values of the data, and otherwise only sizes. -/
structure Program where
  isrVectorSize : Nat
  preinitArray : List Nat
  initArray : List Nat
  finiArray : List Nat
  textSize : Nat
  extabSize : Nat
  exidxSize : Nat
  data : List UInt8
  bssSize : Nat

namespace Program

variable (p : Program) (script : LinkerScript)

def preinitArrayStart : Nat := align4 (align4 script.flashOrigin + p.isrVectorSize)

def preinitArrayEnd : Nat := p.preinitArrayStart script + 4 * p.preinitArray.length

def initArrayEnd : Nat := p.preinitArrayEnd script + 4 * p.initArray.length

def finiArrayEnd : Nat := p.initArrayEnd script + 4 * p.finiArray.length

def textEnd : Nat := align4 (p.finiArrayEnd script + p.textSize)

/-- `_etext`, where the initial values of the data are put. -/
def etext : Nat := p.textEnd script + p.extabSize + p.exidxSize

def sdata : Nat := align4 script.ramOrigin

def edata : Nat := align4 (sdata script + p.data.length)

def sbss : Nat := align4 (p.edata script)

/-- `_ebss`, which is also `_end` and `end`. -/
def ebss : Nat := align4 (p.sbss script + p.bssSize)

def symbols : LinkerSymbols where
  dataLma := p.etext script
  sdata := sdata script
  edata := p.edata script
  sbss := p.sbss script
  ebss := p.ebss script
  preinitArrayStart := p.preinitArrayStart script
  preinitArrayEnd := p.preinitArrayEnd script
  initArrayStart := p.preinitArrayEnd script
  initArrayEnd := p.initArrayEnd script
  finiArrayStart := p.initArrayEnd script
  finiArrayEnd := p.finiArrayEnd script

/-- The linker places every section inside its memory region. -/
structure Links : Prop where
  flash : p.etext script + (p.edata script - sdata script) ≤
    script.flashOrigin + script.flashLength
  ram : p.ebss script ≤ script.eram

/-- The program has been written to the flash memory. -/
structure Flashed (m : Memory) : Prop where
  preinitArray : m.HoldsWords (p.preinitArrayStart script) p.preinitArray
  initArray : m.HoldsWords (p.preinitArrayEnd script) p.initArray
  finiArray : m.HoldsWords (p.initArrayEnd script) p.finiArray
  data : m.Holds (p.etext script) p.data

/-- Nothing in the flash memory has changed. -/
def FlashKept (m m' : Memory) : Prop :=
  m.AgreeOn m' script.flashOrigin (script.flashOrigin + script.flashLength)

variable {p script}

theorem flashOrigin_le_preinitArrayStart : script.flashOrigin ≤ p.preinitArrayStart script :=
  (le_align4 _).trans ((Nat.le_add_right _ _).trans (le_align4 _))

theorem finiArrayEnd_le_etext : p.finiArrayEnd script ≤ p.etext script := by
  have htext : p.finiArrayEnd script + p.textSize ≤ p.textEnd script := le_align4 _
  rw [etext]
  omega

theorem sdata_eq : sdata script = script.ramOrigin := by
  cases script <;> rfl

theorem sdata_dvd : 4 ∣ sdata script := align4_dvd _

theorem data_le_edata : sdata script + p.data.length ≤ p.edata script := le_align4 _

theorem edata_dvd : 4 ∣ p.edata script := align4_dvd _

/-- Nothing lies between the data and the zeroed data. -/
theorem sbss_eq : p.sbss script = p.edata script := align4_of_dvd edata_dvd

theorem bss_le_ebss : p.sbss script + p.bssSize ≤ p.ebss script := le_align4 _

theorem ebss_dvd : 4 ∣ p.ebss script := align4_dvd _

/-- What is flashed stays so while the flash memory is kept. -/
theorem Flashed.kept {m m' : Memory} (hlinks : p.Links script) (h : p.Flashed script m)
    (hkept : FlashKept script m m') : p.Flashed script m' := by
  have hstart : script.flashOrigin ≤ p.preinitArrayStart script :=
    flashOrigin_le_preinitArrayStart
  have htext : p.finiArrayEnd script ≤ p.etext script := finiArrayEnd_le_etext
  have hdata : sdata script + p.data.length ≤ p.edata script := data_le_edata
  have hflash := hlinks.flash
  have hpreinit : p.preinitArrayEnd script =
      p.preinitArrayStart script + 4 * p.preinitArray.length := rfl
  have hinit : p.initArrayEnd script = p.preinitArrayEnd script + 4 * p.initArray.length := rfl
  have hfini : p.finiArrayEnd script = p.initArrayEnd script + 4 * p.finiArray.length := rfl
  exact {
    preinitArray := hkept.holdsWords h.preinitArray hstart (by omega)
    initArray := hkept.holdsWords h.initArray (by omega) (by omega)
    finiArray := hkept.holdsWords h.finiArray (by omega) (by omega)
    data := hkept.holds h.data (by omega) (by omega) }

end Program

end OpenMptl
