/-
Cycle counters.  All objects read one hardware counter, which a constructor resets
and a destructor switches off; what they measure is compared with stopwatches that
know the real time.
-/
import OpenMptl.Lockstep
import OpenMptl.RegbitsField

namespace OpenMptl

namespace Dwt

/-- `DEBUG::DEMCR` -/
def demcr : Reg := ⟨.uint32, 0xE000EDFC, .rw, 0, ValueType.two_pow_width_pos _⟩

/-- `DWT::CTRL` -/
def ctrl : Reg := ⟨.uint32, 0xE0001000, .rw, 0, ValueType.two_pow_width_pos _⟩

/-- `DWT::CYCCNT` -/
def cyccnt : Reg := ⟨.uint32, 0xE0001004, .rw, 0, ValueType.two_pow_width_pos _⟩

section Functions

variable (T : Target) (cfg : BitbandConfig)

/-- `DEBUG::DEMCR::TRCENA` -/
def trcena : Regbits T where
  reg := demcr
  offset := 24
  width := 1
  width_pos := le_rfl
  fits := Nat.le_of_ble_eq_true rfl
  width_lt := lt_of_lt_of_le (by omega) T.ulongWidth_ge
  offset_lt := lt_of_lt_of_le (by omega) T.ulongWidth_ge

def enable (b : Bus) : Bus := (trcena T).toRegmask.set busAccess cfg b

def disable (b : Bus) : Bus := (trcena T).toRegmask.clear busAccess cfg b

/-- The counter is reset, then enabled. -/
def cycleCounterEnable (b : Bus) : Bus := ctrl.set busAccess 1 (busAccess.store cyccnt 0 b)

def cycleCounterLoad (b : Bus) : BitVec 32 × Bus :=
  let (v, b) := busAccess.load cyccnt b
  (BitVec.ofNat 32 v, b)

end Functions

/-! The hardware. -/

/-- What CYCCNT shows. -/
def count (b : Bus) : BitVec 32 := BitVec.ofNat 32 (b.file.value cyccnt)

/-- The counter runs while TRCENA and CYCCNTENA are set. -/
def counting (b : Bus) : Bool := (b.file.value demcr).testBit 24 && (b.file.value ctrl).testBit 0

def passCycles (n : Nat) (b : Bus) : Bus :=
  if counting b then { b with file := b.file.store cyccnt (b.file.value cyccnt + n) } else b

end Dwt

/-- The members of `cycle_counter`. -/
structure CycleCounter where
  value : BitVec 32
deriving DecidableEq

/-- What a program does with objects by name, and the cycles that pass between. -/
inductive CounterOp
  | construct (x : Nat)
  | start (x : Nat)
  | stop (x : Nat)
  | get (x : Nat)
  | destroy (x : Nat)
  | cycles (n : Nat)
deriving DecidableEq, Repr

structure DwtSystem where
  bus : Bus
  counters : Nat → Option CycleCounter

namespace DwtSystem

variable (T : Target) (cfg : BitbandConfig)

def put (s : DwtSystem) (x : Nat) (counter : Option CycleCounter) : DwtSystem :=
  { s with counters := Function.update s.counters x counter }

/-- `get()` -/
def get (s : DwtSystem) (x : Nat) : Option (BitVec 32) :=
  (s.counters x).map CycleCounter.value

/-- An object is constructed once, and used while it lives. -/
def exec (s : DwtSystem) : CounterOp → DwtSystem
  | .construct x =>
      match s.counters x with
      | some _ => s
      | none =>
          { s with bus := Dwt.cycleCounterEnable (Dwt.enable T cfg s.bus) }.put x (some ⟨0⟩)
  | .start x =>
      match s.counters x with
      | some _ =>
          let (count, bus) := Dwt.cycleCounterLoad s.bus
          { s with bus }.put x (some ⟨count⟩)
      | none => s
  | .stop x =>
      match s.counters x with
      | some counter =>
          let (count, bus) := Dwt.cycleCounterLoad s.bus
          { s with bus }.put x (some ⟨count - counter.value⟩)
      | none => s
  | .get _ => s
  | .destroy x =>
      match s.counters x with
      | some _ => { s with bus := Dwt.disable T cfg s.bus }.put x none
      | none => s
  | .cycles n => { s with bus := Dwt.passCycles n s.bus }

end DwtSystem

/-! Stopwatches that read the real time. -/

inductive Stopwatch
  | idle
  | running (since : Nat)
  | stopped (elapsed : Nat)
deriving DecidableEq, Repr

structure Stopwatches where
  now : Nat
  watches : Nat → Option Stopwatch

namespace Stopwatches

def put (s : Stopwatches) (x : Nat) (watch : Option Stopwatch) : Stopwatches :=
  { s with watches := Function.update s.watches x watch }

/-- A `stop()` without a `start()` before it measures nothing. -/
def exec (s : Stopwatches) : CounterOp → Stopwatches
  | .construct x =>
      match s.watches x with
      | some _ => s
      | none => s.put x (some .idle)
  | .start x =>
      match s.watches x with
      | some _ => s.put x (some (.running s.now))
      | none => s
  | .stop x =>
      match s.watches x with
      | some (.running since) => s.put x (some (.stopped (s.now - since)))
      | some _ => s.put x (some .idle)
      | none => s
  | .get _ => s
  | .destroy x => s.put x none
  | .cycles n => { s with now := s.now + n }

end Stopwatches

/-- The program with the real time beside it. -/
structure Measurement where
  system : DwtSystem
  clock : Stopwatches

namespace Measurement

variable (T : Target) (cfg : BitbandConfig)

def exec (s : Measurement) (op : CounterOp) : Measurement :=
  ⟨s.system.exec T cfg op, s.clock.exec op⟩

/-- Before the first object. -/
def Initial (s : Measurement) : Prop :=
  (∀ x, s.system.counters x = none) ∧ ∀ x, s.clock.watches x = none

/-- A living object whose last measurement took less than 2^32 cycles returns them. -/
def Right (s : Measurement) : Prop :=
  ∀ x value elapsed, s.system.get x = some value →
    s.clock.watches x = some (.stopped elapsed) → elapsed < 2 ^ 32 → value.toNat = elapsed

/-- No running measurement is disturbed: the counter is not reset from another value
than 0, and is not off while cycles pass. -/
def Undisturbed (s : Measurement) : CounterOp → Prop
  | .construct x =>
      s.system.counters x = none → ∀ y since, s.clock.watches y = some (.running since) →
        s.clock.now - since < 2 ^ 32 → Dwt.count s.system.bus = 0
  | .cycles n =>
      ∀ y since, s.clock.watches y = some (.running since) →
        s.clock.now + n - since < 2 ^ 32 → n = 0 ∨ Dwt.counting s.system.bus = true
  | .start _ => True
  | .stop _ => True
  | .get _ => True
  | .destroy _ => True

structure Inv (s : Measurement) : Prop where
  living : ∀ x, (s.system.counters x).isSome = (s.clock.watches x).isSome
  running : ∀ x counter since, s.system.counters x = some counter →
    s.clock.watches x = some (.running since) → since ≤ s.clock.now ∧
      (s.clock.now - since < 2 ^ 32 → Dwt.count s.system.bus - counter.value =
        BitVec.ofNat 32 (s.clock.now - since))
  right : s.Right

end Measurement

/-! What the functions do to the counter. -/

namespace Dwt

variable (T : Target) (cfg : BitbandConfig) (b : Bus)

theorem count_disable : count (disable T cfg b) = count b := by
  have hne : cyccnt ≠ demcr := by decide
  have hother := ((trcena T).clear_bit rfl cfg b).2 cyccnt hne
  rw [count, count, disable, hother]

theorem count_cycleCounterEnable : count (cycleCounterEnable b) = 0 := by
  have hne : cyccnt ≠ ctrl := by decide
  simp [count, cycleCounterEnable, Reg.set, busAccess, hne]

theorem count_passCycles (n : Nat) :
    count (passCycles n b) = if counting b then count b + BitVec.ofNat 32 n else count b := by
  unfold passCycles
  split
  · have hwidth : cyccnt.width = 32 := rfl
    simp only [count, RegFile.store_value_self, hwidth, ← BitVec.ofNat_add]
    exact BitVec.eq_of_toNat_eq (by simp)
  · rfl

end Dwt

namespace Measurement

variable {T : Target} {cfg : BitbandConfig} {s : Measurement}

def withBus (s : Measurement) (bus : Bus) : Measurement := ⟨{ s.system with bus }, s.clock⟩

/-- An object and its stopwatch are written together. -/
def put (s : Measurement) (x : Nat) (counter : Option CycleCounter)
    (watch : Option Stopwatch) : Measurement :=
  ⟨s.system.put x counter, s.clock.put x watch⟩

theorem Inv.put (h : s.Inv) (x : Nat) {counter : Option CycleCounter}
    {watch : Option Stopwatch} (hliving : counter.isSome = watch.isSome)
    (hrunning : ∀ c since, counter = some c → watch = some (.running since) →
      since ≤ s.clock.now ∧ (s.clock.now - since < 2 ^ 32 →
        Dwt.count s.system.bus - c.value = BitVec.ofNat 32 (s.clock.now - since)))
    (hright : ∀ c elapsed, counter = some c → watch = some (.stopped elapsed) →
      elapsed < 2 ^ 32 → c.value.toNat = elapsed) :
    (s.put x counter watch).Inv := by
  refine ⟨fun y => ?_, fun y c since => ?_, fun y value elapsed => ?_⟩
  · rcases eq_or_ne y x with rfl | hne
    · simpa [Measurement.put, DwtSystem.put, Stopwatches.put] using hliving
    · simpa [Measurement.put, DwtSystem.put, Stopwatches.put, hne] using h.living y
  · rcases eq_or_ne y x with rfl | hne
    · simpa [Measurement.put, DwtSystem.put, Stopwatches.put] using hrunning c since
    · simpa [Measurement.put, DwtSystem.put, Stopwatches.put, hne] using h.running y c since
  · rcases eq_or_ne y x with rfl | hne
    · cases hcounter : counter with
      | none => simp [Measurement.put, DwtSystem.put, DwtSystem.get]
      | some c =>
          have hc := hright c elapsed hcounter
          simp only [Measurement.put, DwtSystem.put, DwtSystem.get, Stopwatches.put,
            Function.update_self, Option.map_some, Option.some.injEq]
          rintro rfl
          exact hc
    · have hold := h.right y value elapsed
      simpa [Measurement.put, DwtSystem.put, Stopwatches.put, DwtSystem.get, hne] using hold

/-- Only running measurements look at the counter. -/
theorem Inv.with_bus (h : s.Inv) {bus : Bus}
    (hcount : ∀ y since, s.clock.watches y = some (.running since) →
      s.clock.now - since < 2 ^ 32 → Dwt.count bus = Dwt.count s.system.bus) :
    (s.withBus bus).Inv := by
  refine ⟨h.living, fun y c since hc hwatch => ?_, h.right⟩
  obtain ⟨hle, hdiff⟩ := h.running y c since hc hwatch
  refine ⟨hle, fun hlt => ?_⟩
  change Dwt.count bus - c.value = _
  rw [hcount y since hwatch hlt]
  exact hdiff hlt

theorem Inv.loaded (h : s.Inv) : (s.withBus (Dwt.cycleCounterLoad s.system.bus).2).Inv :=
  h.with_bus fun _ _ _ _ => rfl

theorem Inv.watch_eq (h : s.Inv) {x : Nat} (hx : s.system.counters x = none) :
    s.clock.watches x = none := by
  have hliving := h.living x
  rw [hx] at hliving
  exact Option.isNone_iff_eq_none.mp (by simpa using hliving.symm)

theorem Inv.exists_watch (h : s.Inv) {x : Nat} {c : CycleCounter}
    (hx : s.system.counters x = some c) : ∃ watch, s.clock.watches x = some watch := by
  have hliving := h.living x
  rw [hx] at hliving
  exact Option.isSome_iff_exists.mp hliving.symm

theorem Inv.passCycles (h : s.Inv) (n : Nat) (hgood : s.Undisturbed (.cycles n)) :
    (s.exec T cfg (.cycles n)).Inv := by
  refine ⟨h.living, fun y c since hc hwatch => ?_, h.right⟩
  obtain ⟨hle, hdiff⟩ := h.running y c since hc hwatch
  refine ⟨Nat.le_add_right_of_le hle, fun hlt => ?_⟩
  have hlt : s.clock.now + n - since < 2 ^ 32 := hlt
  have hdiff := hdiff (by omega)
  change Dwt.count (Dwt.passCycles n s.system.bus) - c.value =
    BitVec.ofNat 32 (s.clock.now + n - since)
  have hsum : s.clock.now + n - since = s.clock.now - since + n := by omega
  rw [Dwt.count_passCycles, hsum, BitVec.ofNat_add, ← hdiff]
  rcases hgood y since hwatch hlt with rfl | hon
  · simp
  · rw [if_pos hon]
    bv_omega

/-! One equation for each operation on a living object. -/

section Exec

variable {x : Nat} {c : CycleCounter}

theorem exec_construct (hx : s.system.counters x = none) (hwatch : s.clock.watches x = none) :
    s.exec T cfg (.construct x) =
      (s.withBus (Dwt.cycleCounterEnable (Dwt.enable T cfg s.system.bus))).put x (some ⟨0⟩)
        (some .idle) := by
  simp only [Measurement.exec, DwtSystem.exec, Stopwatches.exec, hx, hwatch]
  rfl

theorem exec_start {watch : Stopwatch} (hx : s.system.counters x = some c)
    (hwatch : s.clock.watches x = some watch) :
    s.exec T cfg (.start x) =
      (s.withBus (Dwt.cycleCounterLoad s.system.bus).2).put x
        (some ⟨Dwt.count s.system.bus⟩) (some (.running s.clock.now)) := by
  simp only [Measurement.exec, DwtSystem.exec, Stopwatches.exec, hx, hwatch]
  rfl

theorem exec_stop_running {since : Nat} (hx : s.system.counters x = some c)
    (hwatch : s.clock.watches x = some (.running since)) :
    s.exec T cfg (.stop x) =
      (s.withBus (Dwt.cycleCounterLoad s.system.bus).2).put x
        (some ⟨Dwt.count s.system.bus - c.value⟩)
        (some (.stopped (s.clock.now - since))) := by
  simp only [Measurement.exec, DwtSystem.exec, Stopwatches.exec, hx, hwatch]
  rfl

theorem exec_stop {watch : Stopwatch} (hx : s.system.counters x = some c)
    (hwatch : s.clock.watches x = some watch) (hidle : ∀ since, watch ≠ .running since) :
    s.exec T cfg (.stop x) =
      (s.withBus (Dwt.cycleCounterLoad s.system.bus).2).put x
        (some ⟨Dwt.count s.system.bus - c.value⟩) (some .idle) := by
  cases watch with
  | running since => exact absurd rfl (hidle since)
  | idle =>
      simp only [Measurement.exec, DwtSystem.exec, Stopwatches.exec, hx, hwatch]
      rfl
  | stopped elapsed =>
      simp only [Measurement.exec, DwtSystem.exec, Stopwatches.exec, hx, hwatch]
      rfl

theorem exec_destroy (hx : s.system.counters x = some c) :
    s.exec T cfg (.destroy x) =
      (s.withBus (Dwt.disable T cfg s.system.bus)).put x none none := by
  simp only [Measurement.exec, DwtSystem.exec, Stopwatches.exec, hx]
  rfl

end Exec

theorem Inv.construct (h : s.Inv) (x : Nat) (hgood : s.Undisturbed (.construct x)) :
    (s.exec T cfg (.construct x)).Inv := by
  cases hx : s.system.counters x with
  | some c =>
      obtain ⟨watch, hwatch⟩ := h.exists_watch hx
      simpa only [Measurement.exec, DwtSystem.exec, Stopwatches.exec, hx, hwatch] using h
  | none =>
      rw [exec_construct hx (h.watch_eq hx)]
      refine (h.with_bus fun y since hy hlt => ?_).put x rfl ?_ ?_
      · rw [Dwt.count_cycleCounterEnable, hgood hx y since hy hlt]
      · intro c since _ hidle
        cases hidle
      · intro c elapsed _ hidle
        cases hidle

theorem Inv.start (h : s.Inv) (x : Nat) : (s.exec T cfg (.start x)).Inv := by
  cases hx : s.system.counters x with
  | none =>
      have hwatch := h.watch_eq hx
      simpa only [Measurement.exec, DwtSystem.exec, Stopwatches.exec, hx, hwatch] using h
  | some c =>
      obtain ⟨watch, hwatch⟩ := h.exists_watch hx
      rw [exec_start hx hwatch]
      refine h.loaded.put x rfl ?_ ?_
      · rintro c since ⟨⟩ ⟨⟩
        refine ⟨le_rfl, fun _ => ?_⟩
        change Dwt.count s.system.bus - Dwt.count s.system.bus = _
        simp [withBus]
      · rintro c elapsed - ⟨⟩

theorem Inv.stop (h : s.Inv) (x : Nat) : (s.exec T cfg (.stop x)).Inv := by
  cases hx : s.system.counters x with
  | none =>
      have hwatch := h.watch_eq hx
      simpa only [Measurement.exec, DwtSystem.exec, Stopwatches.exec, hx, hwatch] using h
  | some c =>
      obtain ⟨watch, hwatch⟩ := h.exists_watch hx
      by_cases hrunning : ∃ since, watch = .running since
      · obtain ⟨since, rfl⟩ := hrunning
        rw [exec_stop_running hx hwatch]
        refine h.loaded.put x rfl ?_ ?_
        · rintro c since - ⟨⟩
        · rintro c elapsed ⟨⟩ ⟨⟩ hlt
          rw [(h.running x _ since hx hwatch).2 hlt, BitVec.toNat_ofNat, Nat.mod_eq_of_lt hlt]
      · rw [exec_stop hx hwatch fun since heq => hrunning ⟨since, heq⟩]
        refine h.loaded.put x rfl ?_ ?_
        · rintro c since - ⟨⟩
        · rintro c elapsed - ⟨⟩

theorem Inv.destroy (h : s.Inv) (x : Nat) : (s.exec T cfg (.destroy x)).Inv := by
  cases hx : s.system.counters x with
  | none =>
      have hwatch := h.watch_eq hx
      have hsame : s.exec T cfg (.destroy x) = s := by
        have hclock : s.clock.put x none = s.clock := by
          rw [Stopwatches.put, ← hwatch, Function.update_eq_self]
        simp only [Measurement.exec, DwtSystem.exec, Stopwatches.exec, hx, hclock]
      rw [hsame]
      exact h
  | some c =>
      rw [exec_destroy hx]
      refine (h.with_bus fun _ _ _ _ => Dwt.count_disable T cfg _).put x rfl ?_ ?_
      · rintro c since ⟨⟩
      · rintro c elapsed ⟨⟩

theorem Inv.exec (h : s.Inv) (op : CounterOp) (hgood : s.Undisturbed op) :
    (s.exec T cfg op).Inv := by
  cases op with
  | construct x => exact h.construct x hgood
  | start x => exact h.start x
  | stop x => exact h.stop x
  | get x => exact h
  | destroy x => exact h.destroy x
  | cycles n => exact h.passCycles n hgood

theorem Initial.inv (h : s.Initial) : s.Inv where
  living x := by rw [h.1 x, h.2 x]; rfl
  running x c since hc := by
    rw [h.1 x] at hc
    cases hc
  right x value elapsed hvalue := by
    rw [DwtSystem.get, h.1 x] at hvalue
    cases hvalue

/-- A counter that is off by something makes `stop()` return another number. -/
theorem not_right_of_stop {y since : Nat} {c : CycleCounter}
    (hc : s.system.counters y = some c) (hwatch : s.clock.watches y = some (.running since))
    (hlt : s.clock.now - since < 2 ^ 32)
    (hdiff : Dwt.count s.system.bus - c.value ≠ BitVec.ofNat 32 (s.clock.now - since)) :
    ¬ (s.exec T cfg (.stop y)).Right := by
  intro hright
  rw [exec_stop_running hc hwatch] at hright
  have hvalue := hright y (Dwt.count s.system.bus - c.value) (s.clock.now - since)
    (by simp [Measurement.put, DwtSystem.put, DwtSystem.get])
    (by simp [Measurement.put, Stopwatches.put, withBus]) hlt
  apply hdiff
  apply BitVec.eq_of_toNat_eq
  rw [hvalue, BitVec.toNat_ofNat, Nat.mod_eq_of_lt hlt]

theorem Inv.exists_counter (h : s.Inv) {y : Nat} {watch : Stopwatch}
    (hwatch : s.clock.watches y = some watch) : ∃ c, s.system.counters y = some c := by
  rw [← Option.isSome_iff_exists, h.living y, hwatch]
  rfl

/-- What a disturbed operation does to a measurement shows at its next `stop()`. -/
theorem Inv.not_right_of_disturbed (h : s.Inv) {op : CounterOp} (hbad : ¬ s.Undisturbed op) :
    ∃ y, ¬ ((s.exec T cfg op).exec T cfg (.stop y)).Right := by
  cases op with
  | construct x =>
      simp only [Undisturbed, not_forall] at hbad
      obtain ⟨hx, y, since, hwatch, hlt, hcount⟩ := hbad
      obtain ⟨c, hc⟩ := h.exists_counter hwatch
      have hne : y ≠ x := by
        rintro rfl
        cases hx.symm.trans hc
      have hdiff := (h.running y c since hc hwatch).2 hlt
      rw [exec_construct hx (h.watch_eq hx)]
      refine ⟨y, @not_right_of_stop T cfg _ y since c ?_ ?_ hlt fun heq => hcount ?_⟩
      · simpa [Measurement.put, DwtSystem.put, withBus, hne] using hc
      · simpa [Measurement.put, Stopwatches.put, withBus, hne] using hwatch
      · have hzero := Dwt.count_cycleCounterEnable (Dwt.enable T cfg s.system.bus)
        change Dwt.count (Dwt.cycleCounterEnable (Dwt.enable T cfg s.system.bus)) - c.value =
          BitVec.ofNat 32 (s.clock.now - since) at heq
        rw [hzero, ← hdiff] at heq
        exact (BitVec.sub_left_inj c.value).mp heq.symm
  | cycles n =>
      simp only [Undisturbed, not_forall, not_or] at hbad
      obtain ⟨y, since, hwatch, hlt, hn, hoff⟩ := hbad
      obtain ⟨c, hc⟩ := h.exists_counter hwatch
      obtain ⟨hle, hdiff⟩ := h.running y c since hc hwatch
      have hdiff := hdiff (by omega)
      refine ⟨y, @not_right_of_stop T cfg (s.exec T cfg (.cycles n)) y since c hc hwatch hlt
        fun heq => hn ?_⟩
      change Dwt.count (Dwt.passCycles n s.system.bus) - c.value =
        BitVec.ofNat 32 (s.clock.now + n - since) at heq
      rw [Dwt.count_passCycles, if_neg hoff, hdiff] at heq
      have hnat := congrArg BitVec.toNat heq
      rw [BitVec.toNat_ofNat, BitVec.toNat_ofNat] at hnat
      omega
  | start x => exact absurd trivial hbad
  | stop x => exact absurd trivial hbad
  | get x => exact absurd trivial hbad
  | destroy x => exact absurd trivial hbad

end Measurement

/-- Counters measure rightly through every run that disturbs no measurement; and any
disturbance makes a `stop()` that follows it wrong. -/
theorem cycleCounter_right_of_undisturbed (T : Target) (cfg : BitbandConfig)
    (s : Measurement) (h : s.Initial) (ops : List CounterOp)
    (hgood : Lockstep.GoodAlong (Measurement.exec T cfg) Measurement.Undisturbed s ops) :
    (∀ done, done <+: ops → (done.foldl (Measurement.exec T cfg) s).Right) ∧
    ∀ op, ¬ (ops.foldl (Measurement.exec T cfg) s).Undisturbed op →
      ∃ y, ¬ ((ops ++ [op, .stop y]).foldl (Measurement.exec T cfg) s).Right := by
  have hinv : ∀ done, done <+: ops → (done.foldl (Measurement.exec T cfg) s).Inv :=
    fun done hdone => Lockstep.GoodAlong.invariant (fun _ op hs hop => hs.exec op hop) h.inv
      hgood hdone
  refine ⟨fun done hdone => (hinv done hdone).right, fun op hbad => ?_⟩
  obtain ⟨y, hy⟩ := (hinv ops List.prefix_rfl).not_right_of_disturbed hbad
  refine ⟨y, ?_⟩
  rw [List.foldl_append]
  exact hy

namespace CycleCounterTest

/-- After power-on, with all registers 0. -/
def powerOn : Measurement :=
  ⟨⟨.start ⟨fun _ => 0, fun r => r.two_pow_width_pos⟩, fun _ => none⟩, ⟨0, fun _ => none⟩⟩

/-- A second counter is constructed while the first one is running. -/
def interfering : List CounterOp := [.construct 0, .start 0, .cycles 5, .construct 1, .stop 0]

/-- Five cycles have passed, and `get()` returns 0. -/
theorem cycleCounter_interference :
    (interfering.foldl (Measurement.exec RegbitsTest.arm .automatic) powerOn).system.get 0 =
        some 0 ∧
      (interfering.foldl (Measurement.exec RegbitsTest.arm .automatic) powerOn).clock.watches 0 =
        some (.stopped 5) ∧
      ¬ (interfering.foldl (Measurement.exec RegbitsTest.arm .automatic) powerOn).Right := by
  have hget : (interfering.foldl (Measurement.exec RegbitsTest.arm .automatic)
      powerOn).system.get 0 = some 0 := by decide
  have hwatch : (interfering.foldl (Measurement.exec RegbitsTest.arm .automatic)
      powerOn).clock.watches 0 = some (.stopped 5) := by decide
  refine ⟨hget, hwatch, fun h => ?_⟩
  exact absurd (h 0 0 5 hget hwatch (by decide)) (by decide)

theorem cycleCounter_right_of_undisturbed_alone :
    (([.construct 0, .start 0, .cycles 7, .stop 0] : List CounterOp).foldl
      (Measurement.exec RegbitsTest.arm .automatic) powerOn).Right := by
  refine (cycleCounter_right_of_undisturbed RegbitsTest.arm .automatic powerOn
    ⟨fun _ => rfl, fun _ => rfl⟩ _ ?_).1 _ List.prefix_rfl
  refine Lockstep.goodAlong_cons.mpr ⟨fun _ y since h => (by cases h), ?_⟩
  refine Lockstep.goodAlong_cons.mpr ⟨trivial, ?_⟩
  refine Lockstep.goodAlong_cons.mpr ⟨fun y since _ _ => .inr (by decide), ?_⟩
  exact Lockstep.goodAlong_cons.mpr ⟨trivial, Lockstep.goodAlong_nil⟩

end CycleCounterTest

end OpenMptl
