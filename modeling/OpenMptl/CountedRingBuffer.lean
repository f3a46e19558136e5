/-
The counters of `counted_ring_buffer`.  `push()` and `pop()` are wrapped,
`pushs()` is inherited and leaves the counters alone.  A tally of the answers
says what the counters stand for.
-/
import Mathlib.Data.List.Induction
import OpenMptl.RingBufferQueue

namespace OpenMptl

universe u

/-- The number of elements between the two indices. -/
def RingBuffer.stored {α : Type u} (size : Nat) (rb : RingBuffer α) : Nat :=
  (rb.writeIndex + size - rb.readIndex) % size

theorem RingBuffer.Represents.stored_eq {α : Type u} {size : Nat} {rb : RingBuffer α}
    {q : List α} (h : rb.Represents size q) : rb.stored size = q.length := by
  have hroom := h.room
  have hdistance := @slot_distance size rb.readIndex (rb.readIndex + q.length) (by omega) (by omega)
  rw [Nat.mod_eq_of_lt h.readIndex_lt, Nat.add_sub_cancel_left] at hdistance
  rw [stored, h.writeIndex, hdistance]

/-- The members of `counted_ring_buffer<Tp, size>`, with 32-bit counters. -/
structure CountedRingBuffer (α : Type u) where
  ring : RingBuffer α
  total : Nat
  overrun : Nat
  underrun : Nat

namespace CountedRingBuffer

variable {α : Type u}

def resetCounter (c : CountedRingBuffer α) : CountedRingBuffer α :=
  { c with total := 0, overrun := 0, underrun := 0 }

def reset (c : CountedRingBuffer α) : CountedRingBuffer α :=
  resetCounter { c with ring := c.ring.reset }

def push (size : Nat) (c : CountedRingBuffer α) (data : α) : Bool × CountedRingBuffer α :=
  match c.ring.push size data with
  | (false, ring) => (false, { c with ring := ring, overrun := (c.overrun + 1) % 2 ^ 32 })
  | (true, ring) => (true, { c with ring := ring, total := (c.total + 1) % 2 ^ 32 })

def pop (size : Nat) (c : CountedRingBuffer α) : Option α × CountedRingBuffer α :=
  match c.ring.pop size with
  | (none, ring) => (none, { c with ring := ring, underrun := (c.underrun + 1) % 2 ^ 32 })
  | (some data, ring) => (some data, { c with ring := ring })

/-- Inherited from `ring_buffer`. -/
def pushs [Zero α] [DecidableEq α] (size : Nat) (c : CountedRingBuffer α) (src : Source α) :
    Bool × CountedRingBuffer α :=
  ((c.ring.pushs size src).1, { c with ring := (c.ring.pushs size src).2 })

def getTotal (c : CountedRingBuffer α) : Nat := c.total

def getOverrun (c : CountedRingBuffer α) : Nat := c.overrun

def getUnderrun (c : CountedRingBuffer α) : Nat := c.underrun

@[simp] theorem getTotal_eq (c : CountedRingBuffer α) : c.getTotal = c.total := rfl

@[simp] theorem getOverrun_eq (c : CountedRingBuffer α) : c.getOverrun = c.overrun := rfl

@[simp] theorem getUnderrun_eq (c : CountedRingBuffer α) : c.getUnderrun = c.underrun := rfl

variable [Zero α] [DecidableEq α]

def call (size : Nat) (c : CountedRingBuffer α) :
    RingBuffer.Call α → BoundedQueue.Answer α × CountedRingBuffer α
  | .push data => (.offered (c.push size data).1, (c.push size data).2)
  | .pop => (.polled (c.pop size).1, (c.pop size).2)
  | .pushs src => (.offered (c.pushs size src).1, (c.pushs size src).2)

/-- The counters do not change what the ring buffer does. -/
theorem call_ring (size : Nat) (c : CountedRingBuffer α) (k : RingBuffer.Call α) :
    (c.call size k).1 = (c.ring.call size k).1 ∧
      (c.call size k).2.ring = (c.ring.call size k).2 := by
  cases k with
  | push data =>
      simp only [call, push, RingBuffer.call]
      split <;> simp [*]
  | pop =>
      simp only [call, pop, RingBuffer.call]
      split <;> simp [*]
  | pushs src => exact ⟨rfl, rfl⟩

end CountedRingBuffer

/-- What a caller learns from the answers. -/
structure Tally where
  /-- Elements accepted by write calls. -/
  accepted : Nat
  rejectedWrites : Nat
  pops : Nat
  rejectedPops : Nat

namespace Tally

variable {α : Type u} [Zero α]

def zero : Tally := ⟨0, 0, 0, 0⟩

def count (t : Tally) (k : RingBuffer.Call α) : BoundedQueue.Answer α → Tally
  | .offered true => { t with accepted := t.accepted + k.elements.length }
  | .offered false => { t with rejectedWrites := t.rejectedWrites + 1 }
  | .polled (some _) => { t with pops := t.pops + 1 }
  | .polled none => { t with rejectedPops := t.rejectedPops + 1 }

end Tally

/-- A counted ring buffer beside the tally of its answers. -/
structure Monitored (α : Type u) where
  buffer : CountedRingBuffer α
  tally : Tally

namespace Monitored

variable {α : Type u} [Zero α] [DecidableEq α] {size : Nat} {m : Monitored α}

def step (size : Nat) (m : Monitored α) (k : RingBuffer.Call α) : Monitored α :=
  ⟨(m.buffer.call size k).2, m.tally.count k (m.buffer.call size k).1⟩

/-- A sequence of calls after `reset()`. -/
def run (size : Nat) (c : CountedRingBuffer α) (ks : List (RingBuffer.Call α)) :
    Monitored α :=
  ks.foldl (step size) ⟨c.reset, .zero⟩

theorem run_concat (size : Nat) (c : CountedRingBuffer α) (ks : List (RingBuffer.Call α))
    (k : RingBuffer.Call α) : run size c (ks ++ [k]) = (run size c ks).step size k :=
  List.foldl_concat ..

/-- The counters say what they are named after. -/
structure Exact (size : Nat) (m : Monitored α) : Prop where
  total : m.buffer.getTotal = m.tally.accepted % 2 ^ 32
  stored : m.buffer.getTotal % 2 ^ 32 =
    (m.buffer.ring.stored size + m.tally.pops) % 2 ^ 32
  overrun : m.buffer.getOverrun = m.tally.rejectedWrites % 2 ^ 32
  underrun : m.buffer.getUnderrun = m.tally.rejectedPops % 2 ^ 32

/-- What has been accepted is in the buffer or popped. -/
def Balanced (size : Nat) (m : Monitored α) : Prop :=
  ∃ q, m.buffer.ring.Represents size q ∧ q.length + m.tally.pops = m.tally.accepted

omit [Zero α] [DecidableEq α] in
theorem Balanced.start (hsize : 0 < size) (c : CountedRingBuffer α) :
    Balanced size ⟨c.reset, .zero⟩ :=
  ⟨[], .of_reset hsize c.ring, rfl⟩

/-- Every call keeps the balance, counted or not. -/
theorem Balanced.step (hlt : size < 2 ^ 32) (h : m.Balanced size) (k : RingBuffer.Call α) :
    (m.step size k).Balanced size := by
  obtain ⟨q, hq, hbalance⟩ := h
  obtain ⟨hanswer, hring⟩ := m.buffer.call_ring size k
  rw [Balanced, Monitored.step, hanswer, hring]
  rcases hq.call_cases hlt k with ⟨hok, hnext⟩ | ⟨hok, hnext, -⟩ | ⟨x, rest, rfl, hok, hnext⟩ |
    ⟨rfl, hok, hnext⟩
  all_goals rw [hok]
  · refine ⟨_, hnext, ?_⟩
    simp only [Tally.count, List.length_append]
    omega
  · exact ⟨_, hnext, hbalance⟩
  · refine ⟨_, hnext, ?_⟩
    rw [List.length_cons] at hbalance
    simp only [Tally.count]
    omega
  · exact ⟨_, hnext, hbalance⟩

theorem Balanced.run (hsize : 0 < size) (hlt : size < 2 ^ 32) (c : CountedRingBuffer α)
    (ks : List (RingBuffer.Call α)) : (run size c ks).Balanced size := by
  induction ks using List.reverseRecOn with
  | nil => exact .start hsize c
  | append_singleton ks k ih =>
      rw [run_concat]
      exact ih.step hlt k

omit [Zero α] [DecidableEq α] in
/-- With the balance, the number of stored elements follows from the total. -/
theorem Exact.of_balanced (h : m.Balanced size)
    (total : m.buffer.getTotal = m.tally.accepted % 2 ^ 32)
    (overrun : m.buffer.getOverrun = m.tally.rejectedWrites % 2 ^ 32)
    (underrun : m.buffer.getUnderrun = m.tally.rejectedPops % 2 ^ 32) : m.Exact size := by
  obtain ⟨q, hq, hbalance⟩ := h
  exact {
    total := total
    stored := by rw [total, hq.stored_eq, hbalance, Nat.mod_mod]
    overrun := overrun
    underrun := underrun }

/-- A call keeps the counters exact unless it is a `pushs()` of some elements. -/
theorem Exact.step (hlt : size < 2 ^ 32) (hbalanced : m.Balanced size) (h : m.Exact size)
    {k : RingBuffer.Call α} (hk : ∀ src, k = .pushs src → src.values = []) :
    (m.step size k).Exact size := by
  obtain ⟨total, -, overrun, underrun⟩ := h
  have hnext := hbalanced.step hlt k
  simp only [CountedRingBuffer.getTotal_eq, CountedRingBuffer.getOverrun_eq,
    CountedRingBuffer.getUnderrun_eq] at total overrun underrun
  cases k with
  | push data =>
      refine .of_balanced hnext ?_ ?_ ?_
      all_goals
        simp only [Monitored.step, CountedRingBuffer.call, CountedRingBuffer.push]
        split
      all_goals simp [Tally.count, RingBuffer.Call.elements, total, overrun, underrun]
  | pop =>
      refine .of_balanced hnext ?_ ?_ ?_
      all_goals
        simp only [Monitored.step, CountedRingBuffer.call, CountedRingBuffer.pop]
        split
      all_goals simp [Tally.count, total, overrun, underrun]
  | pushs src =>
      have hnil := hk src rfl
      obtain ⟨q, hq, -⟩ := hbalanced
      have hroom := hq.room
      have hok : (m.buffer.ring.pushs size src).1 = true := by
        rw [(hq.pushs hlt src).taken_iff, hnil]
        exact hroom
      refine .of_balanced hnext ?_ ?_ ?_
      all_goals simp [Monitored.step, CountedRingBuffer.call, CountedRingBuffer.pushs, hok,
        Tally.count, RingBuffer.Call.elements, hnil, total, overrun, underrun]

/-- The counters do not see a `pushs()`, the tally does. -/
theorem Exact.pushs_eq_nil (hlt : size < 2 ^ 32) (hbalanced : m.Balanced size)
    (h : m.Exact size) {src : Source α} (hnext : (m.step size (.pushs src)).Exact size) :
    src.values = [] := by
  obtain ⟨q, hq, -⟩ := hbalanced
  have htotal : m.buffer.getTotal = _ := hnext.total
  have hoverrun : m.buffer.getOverrun = _ := hnext.overrun
  rw [h.total] at htotal
  rw [h.overrun] at hoverrun
  have hlen : src.values.length = 0 := by
    simp only [Monitored.step, CountedRingBuffer.call, CountedRingBuffer.pushs] at htotal hoverrun
    rcases (hq.pushs hlt src).cases with ⟨hok, htaken⟩ | ⟨hfail, -, -⟩
    · have hroom := htaken.room
      rw [List.length_append] at hroom
      simp only [hok, Tally.count, RingBuffer.Call.elements] at htotal
      omega
    · simp only [hfail, Tally.count] at hoverrun
      omega
  exact List.length_eq_zero_iff.mp hlen

omit [Zero α] [DecidableEq α] in
theorem Exact.start (c : CountedRingBuffer α) (hsize : 0 < size) :
    Exact size (⟨c.reset, .zero⟩ : Monitored α) :=
  .of_balanced (.start hsize c) rfl rfl rfl

/-- Without `pushs()` of some elements the counters stay exact. -/
theorem Exact.run (hsize : 0 < size) (hlt : size < 2 ^ 32) (c : CountedRingBuffer α)
    (ks : List (RingBuffer.Call α))
    (hks : ∀ src, RingBuffer.Call.pushs src ∈ ks → src.values = []) :
    (run size c ks).Exact size := by
  induction ks using List.reverseRecOn with
  | nil => exact .start c hsize
  | append_singleton ks k ih =>
      rw [run_concat]
      refine (ih fun src hsrc => hks src (List.mem_append_left _ hsrc)).step hlt
        (.run hsize hlt c ks) fun src hsrc => hks src ?_
      rw [hsrc]
      exact List.mem_append_right _ (List.mem_singleton_self _)

end Monitored

/-- The counters are exact as long as `pushs()` is not used. -/
theorem countedRingBuffer_exact_iff {α : Type u} [Zero α] [DecidableEq α] {size : Nat}
    (hsize : 1 ≤ size) (hlt : size < 2 ^ 32) (c : CountedRingBuffer α)
    (ks : List (RingBuffer.Call α)) :
    (∀ ks', ks' <+: ks → (Monitored.run size c ks').Exact size) ↔
      ∀ src, RingBuffer.Call.pushs src ∈ ks → src.values = [] := by
  constructor
  · intro h src hmem
    obtain ⟨before, behind, rfl⟩ := List.append_of_mem hmem
    have hbefore := h before (List.prefix_append _ _)
    have hafter := h (before ++ [.pushs src]) ⟨behind, by simp⟩
    rw [Monitored.run_concat] at hafter
    exact hbefore.pushs_eq_nil hlt (.run hsize hlt c before) hafter
  · intro h ks' hpre
    exact .run hsize hlt c ks' fun src hmem => h src (hpre.subset hmem)

namespace CountedTest

def start : CountedRingBuffer Nat := ⟨⟨0, 0, fun _ => 0⟩, 0, 0, 0⟩

/-- After a `pushs()` of two elements the buffer is not empty, but the total is 0. -/
theorem countedRingBuffer_pushs_not_counted :
    ¬ (Monitored.run 8 start [.pushs (.block [1, 2])]).Exact 8 := by
  intro hexact
  have hstart : Monitored.Exact 8 ⟨start.reset, .zero⟩ := .start start (by decide)
  have hnil := hstart.pushs_eq_nil (by decide) (.start (by decide) start) hexact
  simp [Source.values] at hnil

theorem countedRingBuffer_exact_push_pop :
    (Monitored.run 8 start [.push 7, .pop, .pop]).Exact 8 :=
  (countedRingBuffer_exact_iff (by decide) (by decide) start [.push 7, .pop, .pop]).mpr
    (by simp) _ (List.prefix_refl _)

end CountedTest

end OpenMptl
