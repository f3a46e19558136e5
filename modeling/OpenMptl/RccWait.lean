/-
Waiting for an oscillator.  The ready flag is polled until it is set or the timeout
has been counted down; the loop hands out its counter as the result, so that a
flag that appears in the last permitted reading is taken for a timeout.
-/
import OpenMptl.RegbitsField

namespace OpenMptl

/-- A register that the hardware changes on its own: its content at each reading,
and the number of readings made. -/
structure Readings where
  content : Nat → Nat
  made : Nat

def Readings.next (s : Readings) : Readings := { s with made := s.made + 1 }

/-- Reading moves on to the next content; the polling functions do not write. -/
def readingAccess : RegAccess Readings where
  load _ s := (s.content s.made, s.next)
  store _ _ s := s
  bitset _ _ s := s
  bitclear _ _ s := s
  bittest _ n s := ((s.content s.made).testBit n, s.next)

section RccWait

variable {T : Target} (cfg : BitbandConfig)

/-- `while((flag::test() == false) && timeout) timeout--;` -/
def pollFlag (flag : Regbits T) : Nat → Readings → Nat × Readings
  | 0, s => (0, (flag.toRegmask.test readingAccess cfg s).2)
  | timeout + 1, s =>
      let (ready, s) := flag.toRegmask.test readingAccess cfg s
      if ready = false then pollFlag flag timeout s else (timeout + 1, s)

/-- The body of the functions with a timeout; the counter is converted to `bool`. -/
def waitReady (flag : Regbits T) (timeout : Nat) (s : Readings) : Bool × Readings :=
  let (timeout, s) := pollFlag cfg flag timeout s
  (timeout != 0, s)

/-- `RCC::CR` -/
def rccCr (baseAddr : Nat) : Reg := ⟨.uint32, baseAddr + 0x0, .rw, 0x00000083, by decide⟩

def rccCrBit (T : Target) (baseAddr offset : Nat) (h : offset < 32) : Regbits T :=
  .ofLow T (rccCr baseAddr) offset 1 ⟨le_rfl, h, h, Nat.lt_of_sub_eq_succ rfl⟩

variable (T)

/-- `RCC::CR::HSERDY` -/
def hserdy (baseAddr : Nat) : Regbits T := rccCrBit T baseAddr 17 (by omega)

/-- `RCC::CR::HSIRDY` -/
def hsirdy (baseAddr : Nat) : Regbits T := rccCrBit T baseAddr 1 (by omega)

namespace F1

def rccBaseAddr : Nat := 0x40021000

def waitHseReady (timeout : Nat) (s : Readings) : Bool × Readings :=
  waitReady cfg (hserdy T rccBaseAddr) timeout s

end F1

namespace F4

def rccBaseAddr : Nat := 0x40023800

def waitHseReady (timeout : Nat) (s : Readings) : Bool × Readings :=
  waitReady cfg (hserdy T rccBaseAddr) timeout s

def waitHsiReady (timeout : Nat) (s : Readings) : Bool × Readings :=
  waitReady cfg (hsirdy T rccBaseAddr) timeout s

end F4

end RccWait

/-- At most `timeout + 1` readings are made, and the result says whether one of them
showed the bit. -/
def Readings.Reported (s : Readings) (bitNo timeout : Nat) (result : Bool × Readings) : Prop :=
  s.made < result.2.made ∧ result.2.made ≤ s.made + timeout + 1 ∧
    (result.1 = true ↔
      ∃ i, s.made ≤ i ∧ i < result.2.made ∧ (s.content i).testBit bitNo = true)

/-- The bit appears in the last permitted reading and not before. -/
def Readings.JustInTime (s : Readings) (bitNo timeout : Nat) : Prop :=
  (∀ i < timeout, (s.content (s.made + i)).testBit bitNo = false) ∧
    (s.content (s.made + timeout)).testBit bitNo = true

section RccWait

variable {T : Target} (cfg : BitbandConfig) {flag : Regbits T}

/-- One test is one reading, by either way of access. -/
theorem test_readingAccess (hwidth : flag.width = 1) (s : Readings) :
    flag.toRegmask.test readingAccess cfg s =
      ((s.content s.made).testBit flag.offset, s.next) := by
  have hmask := flag.clearMask_eq_two_pow hwidth
  have hnonzero : flag.toRegmask.clearMask ≠ 0 := flag.clearMask_ne_zero
  have hvalue : (flag.toRegmask.test readingAccess cfg s).1 =
      flag.toRegmask.holds (s.content s.made) :=
    Regmask.test_eq_holds cfg rfl fun _ _ => rfl
  have hholds : flag.toRegmask.holds (s.content s.made) =
      (s.content s.made).testBit flag.offset := by
    have hand := Regmask.and_two_pow_ne_zero_iff (s.content s.made) flag.offset
    rw [Regmask.holds, if_neg hnonzero]
    simp only [Regbits.toRegmask_setMask, Regbits.toRegmask_clearMask, hmask, ↓reduceIte]
    exact Bool.eq_iff_iff.mpr (decide_eq_true_iff.trans hand)
  have hstate : (flag.toRegmask.test readingAccess cfg s).2 = s.next := by
    unfold Regmask.test
    rw [if_neg hnonzero]
    split
    · rfl
    · split
      · rfl
      · split
        next hload =>
          have hnext := congrArg Prod.snd hload
          split <;> exact hnext.symm
  exact Prod.ext (hvalue.trans hholds) hstate

/-- The loop ends at the first reading that shows the flag, or after all of them. -/
theorem pollFlag_cases (hwidth : flag.width = 1) (timeout : Nat) (s : Readings) :
    (∃ i ≤ timeout, (∀ j < i, (s.content (s.made + j)).testBit flag.offset = false) ∧
      (s.content (s.made + i)).testBit flag.offset = true ∧
      pollFlag cfg flag timeout s = (timeout - i, { s with made := s.made + i + 1 })) ∨
    (∀ j ≤ timeout, (s.content (s.made + j)).testBit flag.offset = false) ∧
      pollFlag cfg flag timeout s = (0, { s with made := s.made + timeout + 1 }) := by
  induction timeout generalizing s with
  | zero =>
      have hpoll : pollFlag cfg flag 0 s = (0, s.next) := by
        rw [pollFlag, test_readingAccess cfg hwidth]
      cases hready : (s.content s.made).testBit flag.offset with
      | true => exact .inl ⟨0, le_rfl, by simp, hready, hpoll⟩
      | false =>
          refine .inr ⟨fun j hj => ?_, hpoll⟩
          rw [Nat.le_zero.mp hj]
          exact hready
  | succ timeout ih =>
      cases hready : (s.content s.made).testBit flag.offset with
      | true =>
          refine .inl ⟨0, Nat.zero_le _, by simp, hready, ?_⟩
          simp [pollFlag, test_readingAccess cfg hwidth, hready, Readings.next]
      | false =>
          have hpoll : pollFlag cfg flag (timeout + 1) s = pollFlag cfg flag timeout s.next := by
            simp [pollFlag, test_readingAccess cfg hwidth, hready]
          rw [hpoll]
          have hshift : ∀ j, s.made + (j + 1) = s.next.made + j := fun j => by
            rw [Readings.next, Nat.add_assoc, Nat.add_comm 1 j]
          rcases ih s.next with ⟨i, hi, hbefore, hfirst, heq⟩ | ⟨hnone, heq⟩
          · refine .inl ⟨i + 1, by omega, fun j hj => ?_, ?_, ?_⟩
            · cases j with
              | zero => exact hready
              | succ j =>
                  rw [hshift]
                  exact hbefore j (by omega)
            · rw [hshift]
              exact hfirst
            · rw [heq, hshift, Nat.add_sub_add_right]
              rfl
          · refine .inr ⟨fun j hj => ?_, ?_⟩
            · cases j with
              | zero => exact hready
              | succ j =>
                  rw [hshift]
                  exact hnone j (by omega)
            · rw [heq, hshift]
              rfl

/-- The result is right unless the flag appears just in time. -/
theorem waitReady_reported_iff (hwidth : flag.width = 1) (timeout : Nat) (s : Readings) :
    s.Reported flag.offset timeout (waitReady cfg flag timeout s) ↔
      ¬ s.JustInTime flag.offset timeout := by
  unfold Readings.Reported waitReady
  rcases pollFlag_cases cfg hwidth timeout s with ⟨i, hi, hbefore, hfirst, heq⟩ | ⟨hnone, heq⟩
  · rw [heq]
    have hseen : ∃ j, s.made ≤ j ∧ j < s.made + i + 1 ∧
        (s.content j).testBit flag.offset = true :=
      ⟨s.made + i, by omega, by omega, hfirst⟩
    rcases Nat.lt_or_ge i timeout with hlt | hge
    · refine iff_of_true ⟨?_, ?_, iff_of_true ?_ hseen⟩ fun hlast => ?_
      · exact Nat.lt_succ_of_le (Nat.le_add_right _ _)
      · change s.made + i + 1 ≤ s.made + timeout + 1
        omega
      · simpa using Nat.sub_ne_zero_of_lt hlt
      · exact Bool.false_ne_true ((hlast.1 i hlt).symm.trans hfirst)
    · obtain rfl : i = timeout := by omega
      refine iff_of_false (fun h => ?_) (not_not.mpr ⟨hbefore, hfirst⟩)
      have htrue := h.2.2.mpr hseen
      simp at htrue
  · rw [heq]
    refine iff_of_true ⟨?_, le_rfl, iff_of_false (by simp) ?_⟩ fun hlast => ?_
    · exact Nat.lt_succ_of_le (Nat.le_add_right _ _)
    · rintro ⟨j, hfrom, hto, hset⟩
      have hclear := hnone (j - s.made) (by change j < s.made + timeout + 1 at hto; omega)
      rw [Nat.add_sub_cancel' hfrom] at hclear
      exact Bool.false_ne_true (hclear.symm.trans hset)
    · exact Bool.false_ne_true ((hnone timeout le_rfl).symm.trans hlast.2)

end RccWait

/-- When the functions with a timeout report the oscillator rightly. -/
theorem rcc_waitReady_iff (T : Target) (cfg : BitbandConfig) (timeout : Nat) (s : Readings) :
    (s.Reported 17 timeout (F1.waitHseReady T cfg timeout s) ↔ ¬ s.JustInTime 17 timeout) ∧
    (s.Reported 17 timeout (F4.waitHseReady T cfg timeout s) ↔ ¬ s.JustInTime 17 timeout) ∧
    (s.Reported 1 timeout (F4.waitHsiReady T cfg timeout s) ↔ ¬ s.JustInTime 1 timeout) :=
  ⟨@waitReady_reported_iff T cfg (hserdy T F1.rccBaseAddr) rfl timeout s,
    @waitReady_reported_iff T cfg (hserdy T F4.rccBaseAddr) rfl timeout s,
    @waitReady_reported_iff T cfg (hsirdy T F4.rccBaseAddr) rfl timeout s⟩

namespace RccWaitTest

/-- The oscillator runs already. -/
def running : Readings := ⟨fun _ => 0x00020083, 0⟩

/-- With a timeout of 0 one reading is made; it shows HSERDY, and the result is
false. -/
theorem waitHseReady_timeout_zero :
    (F1.waitHseReady RegbitsTest.arm BitbandConfig.automatic 0 running).1 = false ∧
    (F1.waitHseReady RegbitsTest.arm BitbandConfig.automatic 0 running).2.made = 1 ∧
    ¬ running.Reported 17 0
      (F1.waitHseReady RegbitsTest.arm BitbandConfig.automatic 0 running) := by
  refine ⟨rfl, rfl, fun h => ?_⟩
  have hresult := h.2.2.mpr ⟨0, le_rfl, Nat.zero_lt_one, rfl⟩
  exact Bool.false_ne_true hresult

end RccWaitTest

end OpenMptl
