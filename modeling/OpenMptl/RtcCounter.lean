/-
`rtc::get_counter()` of the STM32F1 against a counter that runs on its own
clock.  CNTH and CNTL are two bus reads, in the order the compiler chooses, and
any number of ticks may pass between them.
-/
import OpenMptl.SplitCounter
import OpenMptl.Transition
import Mathlib.Data.Nat.Bitwise

namespace OpenMptl

/-- The two counter registers. -/
inductive CounterReg
  | cnth
  | cntl
deriving DecidableEq, Repr

/-- The 32 bit counter after a number of ticks. -/
def rtcCounter (ticks : Nat) : Nat := ticks % 2 ^ 32

/-- `RTC::CNTH::load()` and `RTC::CNTL::load()` at a moment. -/
def CounterReg.load : CounterReg → Nat → Nat
  | .cnth, ticks => rtcCounter ticks / 2 ^ 16
  | .cntl, ticks => rtcCounter ticks % 2 ^ 16

/-- `((uint32_t)RTC::CNTH::load() << 16) | (uint32_t)RTC::CNTL::load()` -/
def assembleCounter (cnth cntl : Nat) : Nat := (cnth <<< 16) % 2 ^ 32 ||| cntl

/-- `rtc::get_counter()`; the operands of `|` may be evaluated in either order. -/
def getCounter (firstReg : CounterReg) (firstTicks lastTicks : Nat) : Nat :=
  match firstReg with
  | .cnth => assembleCounter (CounterReg.cnth.load firstTicks) (CounterReg.cntl.load lastTicks)
  | .cntl => assembleCounter (CounterReg.cnth.load lastTicks) (CounterReg.cntl.load firstTicks)

/-- A finished call, with the moments of its first and last register read. -/
structure CounterCall where
  first : Nat
  last : Nat
  value : Nat
deriving DecidableEq, Repr

/-- The counter showed the value at some moment of the call. -/
def CounterCall.Held (call : CounterCall) : Prop :=
  ∃ ticks, call.first ≤ ticks ∧ ticks ≤ call.last ∧ call.value = rtcCounter ticks

/-- The low half did not fall during the call, or the counter went round. -/
def CounterCall.NoCarry (call : CounterCall) : Prop :=
  call.first % 2 ^ 16 ≤ call.last % 2 ^ 16 ∨
    call.first / 2 ^ 16 + 2 ^ 16 ≤ call.last / 2 ^ 16

/-- Where the program stands in `get_counter()`. -/
inductive CounterReader
  | idle
  | between (firstReg : CounterReg) (first loaded : Nat)

structure RtcSystem where
  ticks : Nat
  reader : CounterReader
  calls : List CounterCall

namespace RtcSystem

/-- The counter shows any value and has not been read. -/
def Initial (s : RtcSystem) : Prop := s.ticks < 2 ^ 32 ∧ s.reader = .idle ∧ s.calls = []

/-- The register that is still to be read, put together with the loaded one. -/
def finish (firstReg : CounterReg) (loaded ticks : Nat) : Nat :=
  match firstReg with
  | .cnth => assembleCounter loaded (CounterReg.cntl.load ticks)
  | .cntl => assembleCounter (CounterReg.cnth.load ticks) loaded

inductive Step : RtcSystem → RtcSystem → Prop
  | tick (s : RtcSystem) : Step s { s with ticks := s.ticks + 1 }
  | loadFirst (s : RtcSystem) (firstReg : CounterReg) (h : s.reader = .idle) :
      Step s { s with reader := .between firstReg s.ticks (firstReg.load s.ticks) }
  | loadLast (s : RtcSystem) (firstReg : CounterReg) (first loaded : Nat)
      (h : s.reader = .between firstReg first loaded) :
      Step s { s with
        reader := .idle
        calls := s.calls ++ [⟨first, s.ticks, finish firstReg loaded s.ticks⟩] }

/-- The moment after which the next call reads. -/
def readFrom (s : RtcSystem) : Nat :=
  match s.reader with
  | .idle => s.ticks
  | .between _ first _ => first

/-- The program has loaded what the register showed at its first read. -/
def ReaderConsistent (s : RtcSystem) : Prop :=
  match s.reader with
  | .idle => True
  | .between firstReg first loaded => first ≤ s.ticks ∧ loaded = firstReg.load first

/-- Calls are the reads of their two moments, one after the other. -/
structure Inv (s : RtcSystem) : Prop where
  reader : s.ReaderConsistent
  values : ∀ call ∈ s.calls, call.first ≤ call.last ∧ call.last ≤ s.readFrom ∧
    ∃ firstReg, call.value = getCounter firstReg call.first call.last
  ordered : s.calls.Pairwise fun earlier later => earlier.last ≤ later.first

end RtcSystem

theorem finish_load (firstReg : CounterReg) (first ticks : Nat) :
    RtcSystem.finish firstReg (firstReg.load first) ticks =
      getCounter firstReg first ticks := by
  cases firstReg <;> rfl

theorem load_cnth (ticks : Nat) :
    CounterReg.cnth.load ticks = SplitCounter.high (2 ^ 16) (2 ^ 16) ticks := by
  simp only [CounterReg.load, rtcCounter, SplitCounter.high]
  omega

theorem load_cntl (ticks : Nat) :
    CounterReg.cntl.load ticks = SplitCounter.low (2 ^ 16) ticks := by
  simp only [CounterReg.load, rtcCounter, SplitCounter.low]
  omega

/-- The halves do not overlap, so the bitwise or puts them side by side. -/
theorem assembleCounter_eq {cnth cntl : Nat} (hcnth : cnth < 2 ^ 16) (hcntl : cntl < 2 ^ 16) :
    assembleCounter cnth cntl = SplitCounter.join (2 ^ 16) cnth cntl := by
  have hshift : cnth <<< 16 < 2 ^ 32 := by
    rw [Nat.shiftLeft_eq]
    omega
  rw [assembleCounter, Nat.mod_eq_of_lt hshift, ← Nat.shiftLeft_add_eq_or_of_lt hcntl,
    Nat.shiftLeft_eq]
  rfl

/-- Halves loaded at two moments, put together. -/
theorem assembleCounter_load (highTicks lowTicks : Nat) :
    assembleCounter (CounterReg.cnth.load highTicks) (CounterReg.cntl.load lowTicks) =
      SplitCounter.join (2 ^ 16) (SplitCounter.high (2 ^ 16) (2 ^ 16) highTicks)
        (SplitCounter.low (2 ^ 16) lowTicks) := by
  have hhigh : SplitCounter.high (2 ^ 16) (2 ^ 16) highTicks < 2 ^ 16 :=
    Nat.mod_lt _ (by decide)
  have hlow : SplitCounter.low (2 ^ 16) lowTicks < 2 ^ 16 := Nat.mod_lt _ (by decide)
  rw [load_cnth, load_cntl, assembleCounter_eq hhigh hlow]

theorem CounterCall.held_iff (call : CounterCall) :
    call.Held ↔ SplitCounter.Held (2 ^ 16) (2 ^ 16) call.first call.last call.value := by
  have hsize : 2 ^ 16 * 2 ^ 16 = 2 ^ 32 := rfl
  unfold Held SplitCounter.Held rtcCounter
  rw [hsize]

/-- In either order a call is right exactly when it sees no carry. -/
theorem getCounter_held_iff {first last : Nat} (hle : first ≤ last) (firstReg : CounterReg) :
    SplitCounter.Held (2 ^ 16) (2 ^ 16) first last (getCounter firstReg first last) ↔
      SplitCounter.NoCarry (2 ^ 16) (2 ^ 16) first last := by
  cases firstReg with
  | cnth =>
      rw [getCounter, assembleCounter_load]
      exact SplitCounter.held_highFirst_iff (by decide) (by decide) hle
  | cntl =>
      rw [getCounter, assembleCounter_load]
      exact SplitCounter.held_lowFirst_iff (by decide) (by decide) hle

namespace RtcSystem

variable {s t : RtcSystem}

theorem readFrom_le (h : s.ReaderConsistent) : s.readFrom ≤ s.ticks := by
  unfold ReaderConsistent at h
  unfold readFrom
  cases hreader : s.reader with
  | idle => exact Nat.le_refl _
  | between firstReg first loaded =>
      rw [hreader] at h
      exact h.1

theorem Inv.of_initial (h : s.Initial) : s.Inv := by
  obtain ⟨-, hreader, hcalls⟩ := h
  exact {
    reader := by simp only [ReaderConsistent, hreader]
    values := by simp [hcalls]
    ordered := by simp [hcalls] }

/-- The calls stay what they were while the next one may only read later. -/
theorem Inv.keepCalls (h : s.Inv) (hcalls : t.calls = s.calls) (hreader : t.ReaderConsistent)
    (hfrom : s.readFrom ≤ t.readFrom) : t.Inv := by
  refine ⟨hreader, ?_, hcalls ▸ h.ordered⟩
  intro call hcall
  obtain ⟨hle, hlast, hvalue⟩ := h.values call (hcalls ▸ hcall)
  exact ⟨hle, hlast.trans hfrom, hvalue⟩

theorem Inv.tick (h : s.Inv) : Inv { s with ticks := s.ticks + 1 } := by
  have hreader := h.reader
  unfold ReaderConsistent at hreader
  cases hcase : s.reader with
  | idle =>
      refine h.keepCalls rfl ?_ ?_
      · simp only [ReaderConsistent]
      · simp only [readFrom, hcase]
        omega
  | between firstReg first loaded =>
      rw [hcase] at hreader
      refine h.keepCalls rfl ?_ ?_
      · simp only [ReaderConsistent]
        exact ⟨hreader.1.trans (Nat.le_succ _), hreader.2⟩
      · simp only [readFrom, hcase]
        exact Nat.le_refl _

theorem Inv.loadFirst (h : s.Inv) (firstReg : CounterReg) :
    Inv { s with reader := .between firstReg s.ticks (firstReg.load s.ticks) } :=
  h.keepCalls rfl ⟨Nat.le_refl _, rfl⟩ (readFrom_le h.reader)

theorem Inv.loadLast (h : s.Inv) {firstReg : CounterReg} {first loaded : Nat}
    (hreader : s.reader = .between firstReg first loaded) :
    Inv { s with
      reader := .idle
      calls := s.calls ++ [⟨first, s.ticks, finish firstReg loaded s.ticks⟩] } := by
  have hconsistent := h.reader
  simp only [ReaderConsistent, hreader] at hconsistent
  obtain ⟨hfirst, rfl⟩ := hconsistent
  have hfrom : s.readFrom = first := by simp only [readFrom, hreader]
  rw [finish_load]
  refine ⟨trivial, ?_, ?_⟩
  · intro call hcall
    rcases List.mem_append.mp hcall with hold | hnew
    · obtain ⟨hle, hlast, hvalue⟩ := h.values call hold
      exact ⟨hle, (hlast.trans_eq hfrom).trans hfirst, hvalue⟩
    · obtain rfl := List.mem_singleton.mp hnew
      exact ⟨hfirst, Nat.le_refl _, firstReg, rfl⟩
  · refine List.pairwise_append.mpr ⟨h.ordered, List.pairwise_singleton _ _, ?_⟩
    intro earlier hearlier later hlater
    obtain rfl := List.mem_singleton.mp hlater
    exact (h.values earlier hearlier).2.1.trans_eq hfrom

theorem Inv.step (h : s.Inv) (hstep : Step s t) : t.Inv := by
  cases hstep with
  | tick => exact h.tick
  | loadFirst firstReg _ => exact h.loadFirst firstReg
  | loadLast firstReg first loaded hreader => exact h.loadLast hreader

theorem reachable_inv (h : Reachable Initial Step s) : s.Inv :=
  h.invariant (fun _ hinit => .of_initial hinit) fun _ _ hinv hstep => hinv.step hstep

theorem Inv.held_iff (h : s.Inv) {call : CounterCall} (hcall : call ∈ s.calls) :
    call.Held ↔ call.NoCarry := by
  obtain ⟨hle, -, firstReg, hvalue⟩ := h.values call hcall
  rw [CounterCall.held_iff, hvalue]
  exact getCounter_held_iff hle firstReg

/-- Before the counter wraps, values held during successive calls are ordered. -/
theorem Inv.values_ordered (h : s.Inv) (hheld : ∀ call ∈ s.calls, call.Held)
    (hticks : s.ticks < 2 ^ 32) :
    s.calls.Pairwise fun earlier later => earlier.value ≤ later.value := by
  refine h.ordered.imp_of_mem ?_
  intro earlier later hearlier hlater horder
  have hbetween : ∀ call ∈ s.calls, call.first ≤ call.value ∧ call.value ≤ call.last := by
    intro call hcall
    have hlast := ((h.values call hcall).2.1.trans (readFrom_le h.reader)).trans_lt hticks
    exact ((CounterCall.held_iff call).mp (hheld call hcall)).between hlast
  exact ((hbetween earlier hearlier).2.trans horder).trans (hbetween later hlater).1

end RtcSystem

/-- Each call returns a value of its own interval exactly when it sees no carry;
a run of such calls never goes backwards before the counter wraps. -/
theorem getCounter_held_iff_noCarry (s : RtcSystem)
    (h : Reachable RtcSystem.Initial RtcSystem.Step s) :
    (∀ call ∈ s.calls,
      (∃ ticks, call.first ≤ ticks ∧ ticks ≤ call.last ∧ call.value = rtcCounter ticks) ↔
        call.first % 2 ^ 16 ≤ call.last % 2 ^ 16 ∨
          call.first / 2 ^ 16 + 2 ^ 16 ≤ call.last / 2 ^ 16) ∧
    ((∀ call ∈ s.calls, call.first % 2 ^ 16 ≤ call.last % 2 ^ 16 ∨
        call.first / 2 ^ 16 + 2 ^ 16 ≤ call.last / 2 ^ 16) →
      s.ticks < 2 ^ 32 →
      s.calls.Pairwise fun earlier later => earlier.value ≤ later.value) := by
  have hinv := RtcSystem.reachable_inv h
  refine ⟨fun call hcall => hinv.held_iff hcall, fun hnoCarry hticks => ?_⟩
  exact hinv.values_ordered (fun call hcall => (hinv.held_iff hcall).mpr (hnoCarry call hcall))
    hticks

namespace RtcCounterTest

/-- The counter stands at 0xffff and is read once; the high half of the second
call is loaded before the carry, its low half after it. -/
theorem run_carry : Reachable RtcSystem.Initial RtcSystem.Step
    ⟨0x10000, .idle, [⟨0xffff, 0xffff, 0xffff⟩, ⟨0xffff, 0x10000, 0⟩]⟩ := by
  have hstart : Reachable RtcSystem.Initial RtcSystem.Step ⟨0xffff, .idle, []⟩ :=
    .start ⟨by decide, rfl, rfl⟩
  have hhigh := hstart.next (.loadFirst _ .cnth rfl)
  have hfirst := hhigh.next (.loadLast _ .cnth 0xffff 0 rfl)
  have hhigh' := hfirst.next (.loadFirst _ .cnth rfl)
  have htick := hhigh'.next (.tick _)
  exact htick.next (.loadLast _ .cnth 0xffff 0 rfl)

theorem getCounter_torn : ¬ ∀ s, Reachable RtcSystem.Initial RtcSystem.Step s →
    s.ticks < 2 ^ 32 →
      (∀ call ∈ s.calls, call.Held) ∧
        s.calls.Pairwise fun earlier later => earlier.value ≤ later.value := by
  intro hall
  obtain ⟨-, hordered⟩ := hall _ run_carry (by decide)
  exact absurd hordered (by decide)

theorem getCounter_held_iff_noCarry_carry :
    ¬ ∃ ticks, 0xffff ≤ ticks ∧ ticks ≤ 0x10000 ∧ 0 = rtcCounter ticks := by
  obtain ⟨hheld, -⟩ := getCounter_held_iff_noCarry _ run_carry
  rw [hheld ⟨0xffff, 0x10000, 0⟩ (by decide)]
  decide

end RtcCounterTest

end OpenMptl
