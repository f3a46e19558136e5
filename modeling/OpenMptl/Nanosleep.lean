/-
`SystemTime::nanosleep()` against the systick, in picoseconds.  The deadline and the
polled time are loaded in two parts each, and any number of picoseconds may pass
between two steps of the code; a tick takes `ps_per_tick` of them.
-/
import Mathlib.Tactic.Linarith
import OpenMptl.Lockstep
import OpenMptl.TimePoint

namespace OpenMptl

/-- The reloads between a time with this counter and the time that `add_ns()` gives. -/
def SystickConstants.reloadsWithin (k : SystickConstants) (ns counter : BitVec 32) : Nat :=
  (k.counterTicks ns / k.reloadValue).toNat +
    if k.counterTicks ns % k.reloadValue > counter then 1 else 0

/-- The ticks of the systick up to a time point.  It takes a tick to reload, so that a
period has one tick more than the time points count. -/
def TimePoint.systickTicks (k : SystickConstants) (tp : TimePoint) : ℤ :=
  DownRadix.value (k.reloadValue.toNat + 1) tp.systick.toNat (tp.counter.toNat + 1)

/-- The systick counter, with the count of its interrupts. -/
structure SystickClock where
  /-- picoseconds since the last tick -/
  phase : Nat
  counter : BitVec 32
  systickCount : BitVec 32
deriving DecidableEq, Repr

namespace SystickClock

variable (k : SystickConstants)

/-- The counter counts down; it reloads after zero, and then `systick_isr()` runs. -/
def tick (c : SystickClock) : SystickClock :=
  if c.counter = 0 then ⟨0, k.reloadValue, c.systickCount + 1⟩
  else ⟨0, c.counter - 1, c.systickCount⟩

def picosecond (c : SystickClock) : SystickClock :=
  if c.phase + 1 < k.psPerTick.toNat then { c with phase := c.phase + 1 } else c.tick k

/-- The counter is at zero, for one picosecond more. -/
def Reloads (c : SystickClock) : Prop := k.psPerTick.toNat ≤ c.phase + 1 ∧ c.counter = 0

instance (c : SystickClock) : Decidable (c.Reloads k) := inferInstanceAs (Decidable (_ ∧ _))

/-- What `set()` loads if nothing happens in between. -/
def now (c : SystickClock) : TimePoint := ⟨c.systickCount, c.counter⟩

/-- The values that a running systick takes. -/
def Running (c : SystickClock) : Prop := c.phase < k.psPerTick.toNat ∧ c.now.InPeriod k

instance (c : SystickClock) : Decidable (c.Running k) := inferInstanceAs (Decidable (_ ∧ _))

/-- The time in picoseconds. -/
def picoseconds (c : SystickClock) : ℤ := c.now.systickTicks k * k.psPerTick.toNat + c.phase

end SystickClock

/-- Where `nanosleep()` stands, with what it has loaded. -/
inductive SleepPc
  | endSystick
  | endCounter (systick : BitVec 32)
  | addNs (endTp : TimePoint)
  | nowSystick (endTp : TimePoint)
  | nowCounter (endTp : TimePoint) (systick : BitVec 32)
  | compare (endTp now : TimePoint)
  | returned
deriving DecidableEq, Repr

/-- One part of `end` has been loaded. -/
def SleepPc.insideEndSet : SleepPc → Bool
  | .endCounter _ => true
  | _ => false

inductive SleepEvent
  | picosecond
  | code
deriving DecidableEq, Repr

/-- A call of `nanosleep()`. -/
structure Nanosleep where
  clock : SystickClock
  pc : SleepPc
  /-- picoseconds since the call -/
  elapsed : Nat
deriving DecidableEq, Repr

namespace Nanosleep

variable (k : SystickConstants) (ns : BitVec 32)

/-- The next step: the two loads of `end.set()`, `end.add_ns(ns)`, and then the two loads
of `now.set()` and `now < end` in turn. -/
def code (s : Nanosleep) : SleepPc :=
  match s.pc with
  | .endSystick => .endCounter s.clock.systickCount
  | .endCounter systick => .addNs ⟨systick, s.clock.counter⟩
  | .addNs endTp => .nowSystick (endTp.addNs k ns)
  | .nowSystick endTp => .nowCounter endTp s.clock.systickCount
  | .nowCounter endTp systick => .compare endTp ⟨systick, s.clock.counter⟩
  | .compare endTp now => if now.lt endTp then .nowSystick endTp else .returned
  | .returned => .returned

def exec (s : Nanosleep) : SleepEvent → Nanosleep
  | .picosecond => { s with clock := s.clock.picosecond k, elapsed := s.elapsed + 1 }
  | .code => { s with pc := s.code k ns }

/-- The call, at any moment of a running systick. -/
def Called (s : Nanosleep) : Prop :=
  s.clock.Running k ∧ s.pc = .endSystick ∧ s.elapsed = 0

instance (s : Nanosleep) : Decidable (s.Called k) := inferInstanceAs (Decidable (_ ∧ _))

/-- `nanosleep(ns)` does not return before `ns` nanoseconds have passed. -/
def NotEarly (s : Nanosleep) : Prop := s.pc = .returned → 1000 * ns.toNat ≤ s.elapsed

instance (s : Nanosleep) : Decidable (s.NotEarly ns) := inferInstanceAs (Decidable (_ → _))

/-- `systick_count` does not wrap around. -/
def Unwrapped (s : Nanosleep) : SleepEvent → Prop
  | .picosecond => s.clock.Reloads k → s.clock.systickCount.toNat + 1 < 2 ^ 32
  | .code => True

instance (s : Nanosleep) : (event : SleepEvent) → Decidable (s.Unwrapped k event)
  | .picosecond => inferInstanceAs (Decidable (_ → _))
  | .code => isTrue trivial

/-- What the second load of `end.set()` misses of the current tick is made up for, by
rounding up or by the ticks of the reloads; and the deadline comes before `systick_count`
wraps around. -/
def InTime (s : Nanosleep) : SleepPc → Prop
  | .endCounter _ => s.clock.phase + 1000 * ns.toNat % k.psPerTick.toNat ≤
      (k.reloadsWithin ns s.clock.counter + 1) * k.psPerTick.toNat
  | .addNs endTp => endTp.systick.toNat + k.reloadsWithin ns endTp.counter < 2 ^ 32
  | _ => True

instance (s : Nanosleep) : (pc : SleepPc) → Decidable (s.InTime k ns pc)
  | .endCounter _ => inferInstanceAs (Decidable (_ ≤ _))
  | .addNs _ => inferInstanceAs (Decidable (_ < _))
  | .endSystick | .nowSystick _ | .nowCounter _ _ | .compare _ _ | .returned => isTrue trivial

/-- The systick does not reload between the two loads of `end.set()`, and the code is in
time. -/
def Undisturbed (s : Nanosleep) : SleepEvent → Prop
  | .picosecond => s.clock.Reloads k → s.pc.insideEndSet = false
  | .code => s.InTime k ns s.pc

instance (s : Nanosleep) : (event : SleepEvent) → Decidable (s.Undisturbed k ns event)
  | .picosecond => inferInstanceAs (Decidable (_ → _))
  | .code => inferInstanceAs (Decidable (s.InTime k ns s.pc))

/-- When the systick reaches the time point, the nanoseconds have passed. -/
def Due (endTp : TimePoint) (s : Nanosleep) : Prop :=
  endTp.InPeriod k ∧
    s.clock.picoseconds k + 1000 * ns.toNat ≤
      endTp.systickTicks k * k.psPerTick.toNat + s.elapsed

/-- What the code has loaded is not later than the systick, and the deadline that it has
computed is late enough. -/
def Loaded (s : Nanosleep) : SleepPc → Prop
  | .endSystick => True
  | .endCounter systick => systick = s.clock.systickCount
  | .addNs endTp => endTp.InPeriod k ∧
      s.clock.picoseconds k + (1000 * ns.toNat % k.psPerTick.toNat : ℕ) ≤
        (endTp.systickTicks k + k.reloadsWithin ns endTp.counter + 1) * k.psPerTick.toNat +
          s.elapsed
  | .nowSystick endTp => s.Due k ns endTp
  | .nowCounter endTp systick =>
      s.Due k ns endTp ∧ systick.toNat ≤ s.clock.systickCount.toNat
  | .compare endTp now =>
      s.Due k ns endTp ∧ now.InPeriod k ∧ now.systickTicks k ≤ s.clock.now.systickTicks k
  | .returned => 1000 * ns.toNat ≤ s.elapsed

def Inv (s : Nanosleep) : Prop := s.clock.Running k ∧ s.Loaded k ns s.pc

end Nanosleep

namespace TimePoint

variable {k : SystickConstants}

/-- A deadline that does not wrap around, in ticks of the systick. -/
theorem addNs_systickTicks (hbase : 1 ≤ k.reloadValue) {tp : TimePoint} {ns : BitVec 32}
    (hfit : tp.systick.toNat + k.reloadsWithin ns tp.counter < 2 ^ 32) :
    (tp.addNs k ns).systickTicks k =
      tp.systickTicks k + (k.counterTicks ns).toNat + k.reloadsWithin ns tp.counter := by
  have hfrac := waitFrac_toNat_lt hbase ns
  rw [counterTicks_eq]
  unfold SystickConstants.reloadsWithin at hfit ⊢
  simp only [addNs]
  generalize k.counterTicks ns / k.reloadValue = quot at *
  generalize k.counterTicks ns % k.reloadValue = frac at *
  unfold systickTicks DownRadix.value
  split
  · next hcarry =>
      have hcarry' : tp.counter.toNat < frac.toNat := hcarry
      rw [if_pos hcarry] at hfit
      have hhigh : (tp.systick + quot + 1).toNat = tp.systick.toNat + quot.toNat + 1 := by
        have hone : (1 : BitVec 32).toNat = 1 := rfl
        rw [BitVec.toNat_add, BitVec.toNat_add, hone]
        omega
      rw [hhigh, toNat_borrow hcarry' hfrac]
      push_cast
      ring
  · next hcarry =>
      have hcounter' : frac.toNat ≤ tp.counter.toNat := Nat.not_lt.mp hcarry
      rw [if_neg hcarry] at hfit
      have hhigh : (tp.systick + quot).toNat = tp.systick.toNat + quot.toNat :=
        BitVec.toNat_add_of_lt hfit
      rw [hhigh, cast_toNat_sub_of_le hcounter']
      push_cast
      ring

/-- Time points that are not earlier come at a later or the same tick. -/
theorem systickTicks_le_of_not_lt {a b : TimePoint} (ha : a.InPeriod k) (hb : b.InPeriod k)
    (h : ¬ a.lt b = true) : b.systickTicks k ≤ a.systickTicks k := by
  have ha : a.counter.toNat ≤ k.reloadValue.toNat := ha
  have hb : b.counter.toNat ≤ k.reloadValue.toNat := hb
  rw [lt_eq_true_iff, not_or, not_and] at h
  have hsystick : b.systick.toNat ≤ a.systick.toNat := Nat.not_lt.mp h.1
  rcases hsystick.lt_or_eq with hlater | hsame
  · have hlater : (b.systick.toNat : ℤ) < a.systick.toNat := by exact_mod_cast hlater
    exact DownRadix.value_le_of_high_lt (by omega) (by omega) (by omega) hlater
  · have hcounter : a.counter.toNat ≤ b.counter.toNat :=
      Nat.not_lt.mp (h.2 (BitVec.eq_of_toNat_eq hsame.symm))
    unfold systickTicks DownRadix.value
    rw [hsame]
    omega

end TimePoint

namespace SystickClock

variable {k : SystickConstants} {c : SystickClock}

/-- What a picosecond does to the systick. -/
structure Passes (k : SystickConstants) (c c' : SystickClock) : Prop where
  running : c'.Running k
  systickTicks_le : c.now.systickTicks k ≤ c'.now.systickTicks k
  picoseconds_eq : c'.picoseconds k = c.picoseconds k + 1
  systickCount_le : c.systickCount.toNat ≤ c'.systickCount.toNat

theorem counter_sub_one_toNat (hne : c.counter ≠ 0) :
    ((c.counter - 1).toNat : ℤ) = c.counter.toNat - 1 := by
  have hpos := BitVec.toNat_pos_of_ne_zero hne
  exact TimePoint.cast_toNat_sub_of_le (y := 1) hpos

theorem tick_inPeriod (h : c.now.InPeriod k) : (c.tick k).now.InPeriod k := by
  have hle : c.counter.toNat ≤ k.reloadValue.toNat := h
  unfold tick
  split
  · exact BitVec.le_refl _
  · next hne =>
      have hcounter := counter_sub_one_toNat hne
      have hless : (c.counter - 1).toNat ≤ k.reloadValue.toNat := by omega
      exact hless

theorem tick_phase : (c.tick k).phase = 0 := by
  unfold tick
  split
  · rfl
  · rfl

theorem tick_systickCount_le (hwrap : c.counter = 0 → c.systickCount.toNat + 1 < 2 ^ 32) :
    c.systickCount.toNat ≤ (c.tick k).systickCount.toNat := by
  unfold tick
  split
  · next hzero =>
      have hcount := BitVec.toNat_add_of_lt (x := c.systickCount) (y := 1) (hwrap hzero)
      exact hcount ▸ Nat.le_add_right _ _
  · exact le_rfl

theorem tick_systickTicks (hwrap : c.counter = 0 → c.systickCount.toNat + 1 < 2 ^ 32) :
    (c.tick k).now.systickTicks k = c.now.systickTicks k + 1 := by
  unfold TimePoint.systickTicks
  by_cases hzero : c.counter = 0
  · -- the next period begins
    have hcount : ((c.systickCount + 1).toNat : ℤ) = c.systickCount.toNat + 1 := by
      rw [BitVec.toNat_add_of_lt (hwrap hzero)]
      rfl
    have hborrow := @DownRadix.value_borrow (k.reloadValue.toNat + 1) c.systickCount.toNat 0
    rw [zero_add] at hborrow
    rw [tick, if_pos hzero, now, now, hcount, hborrow, hzero, ← DownRadix.value_sub_low]
    rfl
  · rw [tick, if_neg hzero, now, now, counter_sub_one_toNat hzero, sub_add_cancel,
      ← DownRadix.value_sub_low, add_sub_cancel_right]

theorem picosecond_passes (h : c.Running k)
    (hwrap : c.Reloads k → c.systickCount.toNat + 1 < 2 ^ 32) :
    c.Passes k (c.picosecond k) := by
  obtain ⟨hphase, hperiod⟩ := h
  unfold picosecond
  split
  · next hlt =>
      refine ⟨⟨hlt, hperiod⟩, le_rfl, ?_, le_rfl⟩
      simp only [picoseconds, now, Nat.cast_add, Nat.cast_one, add_assoc]
  · next hend =>
      have hlast : c.phase + 1 = k.psPerTick.toNat := by omega
      have hwrap : c.counter = 0 → c.systickCount.toNat + 1 < 2 ^ 32 :=
        fun hzero => hwrap ⟨hlast.ge, hzero⟩
      have hticks := tick_systickTicks (k := k) hwrap
      refine ⟨⟨?_, tick_inPeriod hperiod⟩, ?_, ?_, tick_systickCount_le hwrap⟩
      · rw [tick_phase]
        omega
      · rw [hticks]
        omega
      · rw [picoseconds, picoseconds, hticks, tick_phase, ← hlast]
        push_cast
        ring

/-- Only a reload changes the count of interrupts. -/
theorem picosecond_systickCount (h : ¬ c.Reloads k) :
    (c.picosecond k).systickCount = c.systickCount := by
  unfold picosecond
  split
  · rfl
  · next hend =>
      have hne : c.counter ≠ 0 := fun hzero => h ⟨Nat.le_of_not_lt hend, hzero⟩
      rw [tick, if_neg hne]

end SystickClock

namespace Nanosleep

variable {k : SystickConstants} {ns : BitVec 32} {s : Nanosleep}

theorem Due.picosecond {endTp : TimePoint} (h : s.Due k ns endTp)
    (hpass : s.clock.Passes k (s.clock.picosecond k)) :
    (s.exec k ns .picosecond).Due k ns endTp := by
  obtain ⟨hperiod, hdue⟩ := h
  have hpico := hpass.picoseconds_eq
  refine ⟨hperiod, ?_⟩
  simp only [exec, Nat.cast_add, Nat.cast_one]
  linarith

/-- Time passes: only a deadline that is being loaded does not stand a reload. -/
theorem Loaded.picosecond {pc : SleepPc} (h : s.Loaded k ns pc)
    (hpass : s.clock.Passes k (s.clock.picosecond k))
    (hreload : s.clock.Reloads k → pc.insideEndSet = false) :
    (s.exec k ns .picosecond).Loaded k ns pc := by
  cases pc with
  | endSystick => trivial
  | endCounter systick =>
      have hno : ¬ s.clock.Reloads k := fun hrel => Bool.noConfusion (hreload hrel)
      exact h.trans (SystickClock.picosecond_systickCount hno).symm
  | addNs endTp =>
      obtain ⟨hperiod, hle⟩ := h
      have hpico := hpass.picoseconds_eq
      refine ⟨hperiod, ?_⟩
      simp only [exec, Nat.cast_add, Nat.cast_one]
      linarith
  | nowSystick endTp => exact Due.picosecond h hpass
  | nowCounter endTp systick => exact ⟨h.1.picosecond hpass, h.2.trans hpass.systickCount_le⟩
  | compare endTp now => exact ⟨h.1.picosecond hpass, h.2.1, h.2.2.trans hpass.systickTicks_le⟩
  | returned => exact Nat.le_succ_of_le h

/-- `end.add_ns(ns)` -/
theorem Due.of_addNs (hbase : 1 ≤ k.reloadValue) (hns : 1000 * ns.toNat < 2 ^ 32)
    {endTp : TimePoint} (h : s.Loaded k ns (.addNs endTp))
    (hfit : endTp.systick.toNat + k.reloadsWithin ns endTp.counter < 2 ^ 32) :
    s.Due k ns (endTp.addNs k ns) := by
  obtain ⟨hperiod, hle⟩ := h
  have hround := Nat.div_add_mod' (1000 * ns.toNat) k.psPerTick.toNat
  refine ⟨(TimePoint.addNs_spec hbase hperiod ns).1, ?_⟩
  rw [TimePoint.addNs_systickTicks hbase hfit, TimePoint.counterTicks_toNat hns]
  generalize 1000 * ns.toNat % k.psPerTick.toNat = rest at hle hround
  generalize 1000 * ns.toNat / k.psPerTick.toNat = quot at hround ⊢
  have hround : (quot * k.psPerTick.toNat + rest : ℤ) = 1000 * ns.toNat := by
    exact_mod_cast hround
  push_cast
  linarith

/-- The two loads of `now.set()`: a reload between them gives an earlier time. -/
theorem now_systickTicks_le {systick : BitVec 32}
    (h : systick.toNat ≤ s.clock.systickCount.toNat) :
    (⟨systick, s.clock.counter⟩ : TimePoint).systickTicks k ≤
      s.clock.now.systickTicks k := by
  have hperiods := Nat.mul_le_mul_right (k.reloadValue.toNat + 1) h
  have hperiods : (systick.toNat * (k.reloadValue.toNat + 1) : ℤ) ≤
      s.clock.systickCount.toNat * (k.reloadValue.toNat + 1) := by exact_mod_cast hperiods
  simp only [TimePoint.systickTicks, SystickClock.now, DownRadix.value]
  linarith

/-- When the loop ends, the deadline has been reached. -/
theorem Due.elapsed_of_not_lt {endTp now : TimePoint} (h : s.Due k ns endTp)
    (hperiod : now.InPeriod k) (hnow : now.systickTicks k ≤ s.clock.now.systickTicks k)
    (hlt : ¬ now.lt endTp = true) : 1000 * ns.toNat ≤ s.elapsed := by
  obtain ⟨hend, hdue⟩ := h
  have hreached := TimePoint.systickTicks_le_of_not_lt hperiod hend hlt
  have hscaled := mul_le_mul_of_nonneg_right (hreached.trans hnow)
    (Int.natCast_nonneg k.psPerTick.toNat)
  unfold SystickClock.picoseconds at hdue
  omega

theorem Loaded.code (hbase : 1 ≤ k.reloadValue) (hns : 1000 * ns.toNat < 2 ^ 32)
    (hrunning : s.clock.Running k) (h : s.Loaded k ns s.pc)
    (hgood : s.Undisturbed k ns .code) : s.Loaded k ns (s.code k ns) := by
  have hgood : s.InTime k ns s.pc := hgood
  unfold Nanosleep.code
  cases hpc : s.pc with
  | endSystick => rfl
  | endCounter systick =>
      rw [hpc] at h hgood
      obtain rfl : systick = s.clock.systickCount := h
      refine ⟨hrunning.2, ?_⟩
      have hgood : (s.clock.phase + (1000 * ns.toNat % k.psPerTick.toNat : ℕ) : ℤ) ≤
          (k.reloadsWithin ns s.clock.counter + 1) * k.psPerTick.toNat := by
        exact_mod_cast hgood
      simp only [SystickClock.picoseconds, SystickClock.now]
      linarith
  | addNs endTp =>
      rw [hpc] at h hgood
      exact Due.of_addNs hbase hns h hgood
  | nowSystick endTp =>
      rw [hpc] at h
      exact ⟨h, le_rfl⟩
  | nowCounter endTp systick =>
      rw [hpc] at h
      exact ⟨h.1, hrunning.2, now_systickTicks_le h.2⟩
  | compare endTp now =>
      rw [hpc] at h
      obtain ⟨hdue, hperiod, hnow⟩ := h
      by_cases hlt : now.lt endTp = true
      · simp only [hlt, if_true]
        exact hdue
      · simp only [hlt]
        exact hdue.elapsed_of_not_lt hperiod hnow hlt
  | returned =>
      rw [hpc] at h
      exact h

theorem Inv.exec (hbase : 1 ≤ k.reloadValue) (hns : 1000 * ns.toNat < 2 ^ 32)
    (h : s.Inv k ns) (event : SleepEvent) (hwrap : s.Unwrapped k event)
    (hgood : s.Undisturbed k ns event) : (s.exec k ns event).Inv k ns := by
  obtain ⟨hrunning, hloaded⟩ := h
  cases event with
  | picosecond =>
      have hpass := SystickClock.picosecond_passes hrunning hwrap
      exact ⟨hpass.running, hloaded.picosecond hpass hgood⟩
  | code => exact ⟨hrunning, hloaded.code hbase hns hrunning hgood⟩

theorem Called.inv (h : s.Called k) : s.Inv k ns := by
  obtain ⟨hrunning, hpc, -⟩ := h
  refine ⟨hrunning, ?_⟩
  rw [hpc]
  trivial

theorem Inv.notEarly (h : s.Inv k ns) : s.NotEarly ns := by
  intro hpc
  have hloaded := h.2
  rw [hpc] at hloaded
  exact hloaded

end Nanosleep

/-- For an argument that `add_ns()` can scale, no undisturbed call returns early, however
its steps and the interrupts interleave. -/
theorem nanosleep_not_early (k : SystickConstants) (hbase : 1 ≤ k.reloadValue)
    (ns : BitVec 32) (hns : 1000 * ns.toNat < 2 ^ 32) (s : Nanosleep) (hcalled : s.Called k)
    (events : List SleepEvent)
    (hwrap : Lockstep.GoodAlong (Nanosleep.exec k ns) (Nanosleep.Unwrapped k) s events)
    (hgood : Lockstep.GoodAlong (Nanosleep.exec k ns) (Nanosleep.Undisturbed k ns) s events) :
    ∀ done, done <+: events → (done.foldl (Nanosleep.exec k ns) s).NotEarly ns := by
  intro done hdone
  have hboth : Lockstep.GoodAlong (Nanosleep.exec k ns)
      (fun s event => s.Unwrapped k event ∧ s.Undisturbed k ns event) s events :=
    fun part event hpart => ⟨hwrap part event hpart, hgood part event hpart⟩
  exact (hboth.invariant (fun _ event h hevent => h.exec hbase hns event hevent.1 hevent.2)
    hcalled.inv hdone).notEarly

namespace NanosleepTest

open TimePointTest (systick100)

/-- `nanosleep()` is called at a moment of the systick. -/
def called (phase : Nat) (counter systickCount : BitVec 32) : Nanosleep :=
  ⟨⟨phase, counter, systickCount⟩, .endSystick, 0⟩

/-- A nanosecond that ends with a tick: the call returns right after it. -/
def tight : List SleepEvent :=
  [.code, .code, .code] ++ List.replicate 1000 .picosecond ++ [.code, .code, .code]

theorem nanosleep_not_early_tight :
    (tight.foldl (Nanosleep.exec systick100 1) (called 110111 3000 5)).pc = .returned ∧
      (tight.foldl (Nanosleep.exec systick100 1) (called 110111 3000 5)).NotEarly 1 :=
  ⟨by decide +kernel, nanosleep_not_early systick100 (by decide) 1 (by decide)
    (called 110111 3000 5) (by decide) tight (by decide +kernel) (by decide +kernel) tight
    List.prefix_rfl⟩

/-- `systick_count` does not wrap around, and still the call returns too early. -/
def ReturnsEarly (ns : BitVec 32) (s : Nanosleep) (events : List SleepEvent) : Prop :=
  s.Called systick100 ∧
    Lockstep.GoodAlong (Nanosleep.exec systick100 ns) (Nanosleep.Unwrapped systick100) s
      events ∧
    ¬ (events.foldl (Nanosleep.exec systick100 ns) s).NotEarly ns

/-- A millisecond is over after one picosecond when the systick reloads between the two
loads of `end.set()`, and without any time when the deadline wraps around; 4294968 ns and
100 ns are over with the first tick, as the product wraps around and as the tick had
begun. -/
theorem nanosleep_returns_early :
    ReturnsEarly 1000000 (called 111110 0 5)
      [.code, .picosecond, .code, .code, .code, .code, .code] ∧
    ReturnsEarly 4294968 (called 111110 3000 5)
      [.code, .code, .code, .picosecond, .code, .code, .code] ∧
    ReturnsEarly 100 (called 111110 3000 5)
      [.code, .code, .code, .picosecond, .code, .code, .code] ∧
    ReturnsEarly 1000000 (called 0 3000 0xffffffff)
      [.code, .code, .code, .code, .code, .code] := by
  unfold ReturnsEarly
  decide +kernel

end NanosleepTest

end OpenMptl
