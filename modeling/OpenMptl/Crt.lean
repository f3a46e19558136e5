/-
From reset to the first constructor.  The startup code fills the data sections, sets
up the system clock and calls the functions of two arrays; it runs on the symbols of
the linker script, and the clock may never become ready.
-/
import OpenMptl.LinkerScript
import OpenMptl.Waiting

namespace OpenMptl

universe u

namespace Crt

/-- `while(dst < &_edata) *(dst++) = *(src++);` -/
def initDataLoop (edata src dst : Nat) (m : Memory) : Memory :=
  if dst < edata then
    initDataLoop edata (src + 4) (dst + 4) (m.storeBytes dst 4 (m.loadBytes src 4))
  else m
termination_by edata - dst

def initDataSection (sym : LinkerSymbols) (m : Memory) : Memory :=
  initDataLoop sym.edata sym.dataLma sym.sdata m

/-- `while(dst < &_ebss) *(dst++) = 0;` -/
def initBssLoop (ebss dst : Nat) (m : Memory) : Memory :=
  if dst < ebss then initBssLoop ebss (dst + 4) (m.storeBytes dst 4 0) else m
termination_by ebss - dst

def initBssSection (sym : LinkerSymbols) (m : Memory) : Memory :=
  initBssLoop sym.ebss sym.sbss m

/-- The memory of the processor, and everything else that a function can change. -/
structure Machine (β : Type u) where
  memory : Memory
  board : β

section Arrays

variable {β : Type u} (call : Nat → Machine β → Machine β)

/-- `while(i < n) start[i++]();` -/
def runArrayLoop (start n i : Nat) (s : Machine β) : Machine β :=
  if i < n then
    runArrayLoop start n (i + 1) (call (s.memory.loadBytes (start + 4 * i) 4) s)
  else s
termination_by n - i

def runArray (start stop : Nat) (s : Machine β) : Machine β :=
  runArrayLoop call start ((stop - start) / 4) 0 s

def runPreinitArray (sym : LinkerSymbols) : Machine β → Machine β :=
  runArray call sym.preinitArrayStart sym.preinitArrayEnd

def runInitArray (sym : LinkerSymbols) : Machine β → Machine β :=
  runArray call sym.initArrayStart sym.initArrayEnd

def runFiniArray (sym : LinkerSymbols) : Machine β → Machine β :=
  runArray call sym.finiArrayStart sym.finiArrayEnd

end Arrays

end Crt

/-- The class `system_clock_type` of the startup code. -/
structure SystemClockType (β : Type u) where
  init : Waiting β PUnit
  configure : Waiting β PUnit

namespace Core

open Crt

variable {β : Type u}

/-- A computation that does not touch the memory. -/
def onBoard (prog : Waiting β PUnit) : Waiting (Machine β) PUnit := fun s =>
  ((prog s.board).1, { s with board := (prog s.board).2 })

/-- The clock setup, around the early configuration. -/
def clockSetup (clock : SystemClockType β) (earlyCfg : β → β) : Waiting β PUnit := do
  clock.init
  .modify earlyCfg
  clock.configure

/-- `core_base::startup<system_clock_type, early_cfg_list...>()` -/
def startup (sym : LinkerSymbols) (clock : SystemClockType β) (earlyCfg : β → β)
    (call : Nat → Machine β → Machine β) : Waiting (Machine β) PUnit := do
  .modify fun s => { s with memory := initDataSection sym s.memory }
  .modify fun s => { s with memory := initBssSection sym s.memory }
  onBoard clock.init
  onBoard (.modify earlyCfg)
  onBoard clock.configure
  .modify (runPreinitArray call sym)
  .modify (runInitArray call sym)

end Core

namespace Crt

theorem initDataLoop_eq (edata src dst : Nat) (m : Memory) :
    initDataLoop edata src dst m = Memory.copyWords ((edata - dst + 3) / 4) dst src m := by
  induction src, dst, m using initDataLoop.induct edata with
  | case1 src dst m hlt ih =>
      have hcount : (edata - dst + 3) / 4 = (edata - (dst + 4) + 3) / 4 + 1 := by omega
      rw [initDataLoop, if_pos hlt, ih, hcount, Memory.copyWords]
  | case2 src dst m hge =>
      have hcount : (edata - dst + 3) / 4 = 0 := by omega
      rw [initDataLoop, if_neg hge, hcount, Memory.copyWords]

theorem initBssLoop_eq (ebss dst : Nat) (m : Memory) :
    initBssLoop ebss dst m = Memory.clearWords ((ebss - dst + 3) / 4) dst m := by
  induction dst, m using initBssLoop.induct ebss with
  | case1 dst m hlt ih =>
      have hcount : (ebss - dst + 3) / 4 = (ebss - (dst + 4) + 3) / 4 + 1 := by omega
      rw [initBssLoop, if_pos hlt, ih, hcount, Memory.clearWords]
  | case2 dst m hge =>
      have hcount : (ebss - dst + 3) / 4 = 0 := by omega
      rw [initBssLoop, if_neg hge, hcount, Memory.clearWords]

section Arrays

variable {β : Type u} {call : Nat → Machine β → Machine β}

/-- The loop calls the functions that are still left, provided they leave the array
alone. -/
theorem runArrayLoop_eq {inv : Machine β → Prop} {start : Nat} {functions : List Nat}
    (hholds : ∀ s, inv s → s.memory.HoldsWords start functions)
    (hcall : ∀ f s, inv s → inv (call f s)) (i : Nat) {s : Machine β} (hs : inv s) :
    runArrayLoop call start functions.length i s =
      (functions.drop i).foldl (fun t f => call f t) s := by
  induction i, s using runArrayLoop.induct call start functions.length with
  | case1 i s hlt ih =>
      have hload : s.memory.loadBytes (start + 4 * i) 4 = functions[i] := hholds s hs i hlt
      rw [hload] at ih
      rw [runArrayLoop, if_pos hlt, hload, ih (hcall _ s hs), List.drop_eq_getElem_cons hlt,
        List.foldl_cons]
  | case2 i s hge =>
      rw [runArrayLoop, if_neg hge, List.drop_of_length_le (Nat.le_of_not_lt hge),
        List.foldl_nil]

theorem runArray_eq {inv : Machine β → Prop} {start stop : Nat} {functions : List Nat}
    (hholds : ∀ s, inv s → s.memory.HoldsWords start functions)
    (hcall : ∀ f s, inv s → inv (call f s)) (hstop : stop = start + 4 * functions.length)
    {s : Machine β} (hs : inv s) :
    runArray call start stop s = functions.foldl (fun t f => call f t) s := by
  have hcount : (stop - start) / 4 = functions.length := by omega
  rw [runArray, hcount, runArrayLoop_eq hholds hcall 0 hs, List.drop_zero]

theorem foldl_call {inv : Machine β → Prop} (hcall : ∀ f s, inv s → inv (call f s))
    (functions : List Nat) {s : Machine β} (hs : inv s) :
    inv (functions.foldl (fun t f => call f t) s) := by
  induction functions generalizing s with
  | nil => exact hs
  | cons f fs ih => exact ih (hcall f s hs)

end Arrays

end Crt

namespace Program

variable {p : Program} {script : LinkerScript} {m : Memory}

/-- The data sections of a program that is about to run. -/
structure Initialised (p : Program) (script : LinkerScript) (m ready : Memory) : Prop where
  data : ready.Holds (sdata script) p.data
  bss : ∀ a, p.sbss script ≤ a → a < p.ebss script → ready.byte a = 0
  frame : ∀ a, a < sdata script ∨ p.ebss script ≤ a → ready.byte a = m.byte a

open Crt

theorem byte_initDataSection (hlinks : p.Links script) (m : Memory) (a : Nat) :
    (initDataSection (p.symbols script) m).byte a =
      if sdata script ≤ a ∧ a < p.edata script then
        m.byte (p.etext script + (a - sdata script))
      else m.byte a := by
  have hle : sdata script ≤ p.edata script :=
    (Nat.le_add_right _ _).trans data_le_edata
  have hwords : sdata script + 4 * ((p.edata script - sdata script + 3) / 4) =
      p.edata script := by
    have hsdata : 4 ∣ sdata script := sdata_dvd
    have hedata : 4 ∣ p.edata script := edata_dvd
    omega
  have hbelow : p.etext script + 4 * ((p.edata script - sdata script + 3) / 4) ≤
      sdata script := by
    have hflash := hlinks.flash
    have hram := script.flash_below_ram
    rw [← sdata_eq] at hram
    omega
  have hloop : initDataSection (p.symbols script) m =
      Memory.copyWords ((p.edata script - sdata script + 3) / 4) (sdata script)
        (p.etext script) m := initDataLoop_eq _ _ _ m
  rw [hloop, Memory.byte_copyWords _ (.inr hbelow), hwords]

theorem byte_initBssSection (m : Memory) (a : Nat) :
    (initBssSection (p.symbols script) m).byte a =
      if p.sbss script ≤ a ∧ a < p.ebss script then 0 else m.byte a := by
  have hle : p.sbss script ≤ p.ebss script := (Nat.le_add_right _ _).trans bss_le_ebss
  have hwords : p.sbss script + 4 * ((p.ebss script - p.sbss script + 3) / 4) =
      p.ebss script := by
    have hsbss : 4 ∣ p.sbss script := align4_dvd _
    have hebss : 4 ∣ p.ebss script := ebss_dvd
    omega
  have hloop : initBssSection (p.symbols script) m =
      Memory.clearWords ((p.ebss script - p.sbss script + 3) / 4) (p.sbss script) m :=
    initBssLoop_eq _ _ m
  rw [hloop, Memory.byte_clearWords, hwords]

/-- The two loops initialise the data sections of every program that links. -/
theorem initialised (hlinks : p.Links script) (h : p.Flashed script m) :
    p.Initialised script m
      (initBssSection (p.symbols script) (initDataSection (p.symbols script) m)) := by
  have hdata : sdata script + p.data.length ≤ p.edata script := data_le_edata
  have hsbss : p.sbss script = p.edata script := sbss_eq
  have hbss : p.sbss script + p.bssSize ≤ p.ebss script := bss_le_ebss
  constructor
  · intro i hi
    have hin : sdata script ≤ sdata script + i ∧ sdata script + i < p.edata script := by omega
    rw [byte_initBssSection, if_neg (by omega), byte_initDataSection hlinks, if_pos hin,
      Nat.add_sub_cancel_left]
    exact h.data i hi
  · intro a hlower hupper
    rw [byte_initBssSection, if_pos ⟨hlower, hupper⟩]
  · intro a hout
    rw [byte_initBssSection, if_neg (by omega), byte_initDataSection hlinks, if_neg (by omega)]

theorem Initialised.flashKept {ready : Memory} (h : p.Initialised script m ready) :
    FlashKept script m ready := by
  intro a _ hupper
  have hram := script.flash_below_ram
  rw [← sdata_eq] at hram
  exact h.frame a (.inl (hupper.trans_le hram))

end Program

namespace Core

open Crt

variable {β : Type u}

variable {sym : LinkerSymbols} {clock : SystemClockType β} {earlyCfg : β → β}
  {call : Nat → Machine β → Machine β} {s : Machine β} {board : β}

theorem startup_of_clockSetup (h : clockSetup clock earlyCfg s.board = (some ⟨⟩, board)) :
    startup sym clock earlyCfg call s =
      (some ⟨⟩, runInitArray call sym (runPreinitArray call sym
        ⟨initBssSection sym (initDataSection sym s.memory), board⟩)) := by
  rcases hinit : clock.init s.board with ⟨_ | _, b⟩
  · simp [clockSetup, bind, hinit] at h
  · rcases hconfigure : clock.configure (earlyCfg b) with ⟨_ | _, b'⟩
    · simp [clockSetup, bind, Waiting.modify, hinit, hconfigure] at h
    · simp [clockSetup, bind, Waiting.modify, hinit, hconfigure] at h
      simp [startup, onBoard, bind, Waiting.modify, hinit, hconfigure, h]

/-- While the clock is not ready, none of the functions has been called. -/
theorem startup_of_clockSetup_waits (h : clockSetup clock earlyCfg s.board = (none, board)) :
    startup sym clock earlyCfg call s =
      (none, ⟨initBssSection sym (initDataSection sym s.memory), board⟩) := by
  rcases hinit : clock.init s.board with ⟨_ | _, b⟩
  · simp [clockSetup, bind, hinit] at h
    simp [startup, onBoard, bind, Waiting.modify, hinit, h]
  · rcases hconfigure : clock.configure (earlyCfg b) with ⟨_ | _, b'⟩
    · simp [clockSetup, bind, Waiting.modify, hinit, hconfigure] at h
      simp [startup, onBoard, bind, Waiting.modify, hinit, hconfigure, h]
    · simp [clockSetup, bind, Waiting.modify, hinit, hconfigure] at h

end Core

namespace Program

open Crt

variable {β : Type u} {p : Program} {script : LinkerScript}
  {call : Nat → Machine β → Machine β}

/-- Functions that do not write to the flash memory keep the program there. -/
theorem flashed_call (hcall : ∀ f t, FlashKept script t.memory (call f t).memory) (m : Memory)
    (f : Nat) (t : Machine β) (h : FlashKept script m t.memory) :
    FlashKept script m (call f t).memory :=
  h.trans (hcall f t)

/-- Both arrays, one after the other, from any state in which the flash memory is that
of the start. -/
theorem runArrays_eq (hlinks : p.Links script)
    (hcall : ∀ f t, FlashKept script t.memory (call f t).memory) {m : Memory}
    (hflashed : p.Flashed script m) {t : Machine β} (ht : FlashKept script m t.memory) :
    runInitArray call (p.symbols script) (runPreinitArray call (p.symbols script) t) =
      (p.preinitArray ++ p.initArray).foldl (fun t f => call f t) t := by
  have hkept := flashed_call hcall m
  have hpreinit : runPreinitArray call (p.symbols script) t =
      p.preinitArray.foldl (fun t f => call f t) t :=
    runArray_eq (fun _ hs => (hflashed.kept hlinks hs).preinitArray) hkept rfl ht
  have hready := foldl_call hkept p.preinitArray ht
  have hinit : runInitArray call (p.symbols script)
      (p.preinitArray.foldl (fun t f => call f t) t) =
      p.initArray.foldl (fun t f => call f t)
        (p.preinitArray.foldl (fun t f => call f t) t) :=
    runArray_eq (fun _ hs => (hflashed.kept hlinks hs).initArray) hkept rfl hready
  rw [hpreinit, hinit, List.foldl_append]

end Program

/-- From reset to `main`: whatever the clock does, the data sections are ready; once
the clock is, every function of the two arrays is called once and in order. -/
theorem startup_runs_program {β : Type u} {script : LinkerScript} {p : Program}
    (hlinks : p.Links script) (clock : SystemClockType β) (earlyCfg : β → β)
    {call : Nat → Crt.Machine β → Crt.Machine β}
    (hcall : ∀ f t, Program.FlashKept script t.memory (call f t).memory)
    (s : Crt.Machine β) (hflashed : p.Flashed script s.memory) :
    ∃ ready : Memory, p.Initialised script s.memory ready ∧
      (∀ board, Core.clockSetup clock earlyCfg s.board = (none, board) →
        Core.startup (p.symbols script) clock earlyCfg call s = (none, ⟨ready, board⟩)) ∧
      (∀ board, Core.clockSetup clock earlyCfg s.board = (some ⟨⟩, board) →
        Core.startup (p.symbols script) clock earlyCfg call s =
          (some ⟨⟩, (p.preinitArray ++ p.initArray).foldl (fun t f => call f t)
            ⟨ready, board⟩)) ∧
      (∀ t : Crt.Machine β, Program.FlashKept script s.memory t.memory →
        Crt.runFiniArray call (p.symbols script) t =
          p.finiArray.foldl (fun t f => call f t) t) := by
  have hinitialised := Program.initialised hlinks hflashed
  refine ⟨_, hinitialised, fun board h => Core.startup_of_clockSetup_waits h,
    fun board h => ?_, fun t ht => ?_⟩
  · rw [Core.startup_of_clockSetup h,
      Program.runArrays_eq hlinks hcall hflashed hinitialised.flashKept]
  · exact Crt.runArray_eq (fun _ hs => (hflashed.kept hlinks hs).finiArray)
      (Program.flashed_call hcall s.memory) rfl ht

namespace CrtTest

/-- A function before the constructors, two constructors and one byte of data. -/
def small : Program := ⟨0, [3], [5, 6], [], 0, 0, 0, [7], 4⟩

/-- The flash memory with the addresses of the functions and the byte; nothing is known
about the RAM. -/
def image : Memory where
  byte a :=
    if a < 0x20000000 then
      match a - 0x08000000 with
      | 0 => 3
      | 4 => 5
      | 8 => 6
      | 12 => 7
      | _ => 0
    else 0xff
  byte_lt a := by
    split
    · split <;> decide
    · decide

theorem image_flashed : small.Flashed .stm32f10xFlashMd image := by
  constructor
  · intro i hi
    obtain rfl : i = 0 := Nat.lt_one_iff.mp hi
    rfl
  · intro i hi
    obtain rfl | rfl : i = 0 ∨ i = 1 := Nat.le_one_iff_eq_zero_or_eq_one.mp (Nat.le_of_lt_succ hi)
    · rfl
    · rfl
  · intro i hi
    exact absurd hi (Nat.not_lt_zero i)
  · intro i hi
    obtain rfl : i = 0 := Nat.lt_one_iff.mp hi
    rfl

/-- The board keeps the functions that were called. -/
def record (f : Nat) (t : Crt.Machine (List Nat)) : Crt.Machine (List Nat) :=
  { t with board := t.board ++ [f] }

theorem startup_runs_program_small : ∃ ready : Memory,
    ready.byte 0x20000000 = 7 ∧ ready.byte 0x20000004 = 0 ∧
      Core.startup (small.symbols .stm32f10xFlashMd) ⟨pure ⟨⟩, pure ⟨⟩⟩ id record
        ⟨image, []⟩ = (some ⟨⟩, ⟨ready, [3, 5, 6]⟩) := by
  have hlinks : small.Links .stm32f10xFlashMd := by
    constructor <;> decide
  have hcall : ∀ f t, Program.FlashKept .stm32f10xFlashMd t.memory (record f t).memory :=
    fun _ t => .refl t.memory _ _
  obtain ⟨ready, hready, -, hstartup, -⟩ := startup_runs_program hlinks
    ⟨pure ⟨⟩, pure ⟨⟩⟩ id hcall ⟨image, []⟩ image_flashed
  exact ⟨ready, hready.data 0 Nat.zero_lt_one, hready.bss _ (by decide) (by decide),
    hstartup [] rfl⟩

end CrtTest

end OpenMptl
