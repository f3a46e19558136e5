/-
The lock-free ring buffer.  Every member function is broken into its index
loads, buffer accesses and index stores, so that one producer and one consumer
can be interleaved at any of them.  The histories of accepted and popped values
are kept beside the machine state; no step reads them.
-/
import Mathlib.Data.List.GetD
import OpenMptl.RingWindow
import OpenMptl.Transition

namespace OpenMptl

universe u

/-- The members of `ring_buffer<Tp, size>`. -/
structure RingBuffer (α : Type u) where
  writeIndex : Nat
  readIndex : Nat
  buf : Nat → α

/-- The argument of `pushs()`: a text is followed by a 0, a block has a count. -/
inductive Source (α : Type u) [Zero α]
  | text (s : List α) (nonzero : ∀ c ∈ s, c ≠ 0)
  | block (data : List α)

namespace Source

variable {α : Type u} [Zero α]

/-- The elements that the call is about to write. -/
def values : Source α → List α
  | .text s _ => s
  | .block data => data

/-- `data[i]` -/
def fetch (src : Source α) (i : Nat) : α := src.values.getD i 0

/-- The loop condition, `data[i]` for a text and `i < count` for a block. -/
def more [DecidableEq α] : Source α → Nat → Bool
  | .text s h, i => decide (fetch (.text s h) i ≠ 0)
  | .block data, i => decide (i < data.length)

/-- Both loops run over the elements of the argument. -/
theorem more_iff [DecidableEq α] (src : Source α) (i : Nat) :
    src.more i = true ↔ i < src.values.length := by
  cases src with
  | block data => simp [more, values]
  | text s nonzero =>
      rw [more, decide_eq_true_iff]
      change s.getD i 0 ≠ 0 ↔ i < s.length
      constructor
      · intro hne
        by_contra hlen
        exact hne (List.getD_eq_default s 0 (by omega))
      · intro hlt
        rw [List.getD_eq_getElem s 0 hlt]
        exact nonzero _ (List.getElem_mem hlt)

theorem take_succ (src : Source α) {i : Nat} (hi : i < src.values.length) :
    src.values.take (i + 1) = src.values.take i ++ [src.fetch i] := by
  rw [List.take_succ_eq_append_getElem hi, fetch, List.getD_eq_getElem _ _ hi]

end Source

namespace RingBuffer

variable {α : Type u}

/-- `increment()`, on 32-bit indices. -/
def increment (size arg : Nat) : Nat :=
  let ret := (arg + 1) % 2 ^ 32
  if ret ≥ size then 0 else ret

def reset (rb : RingBuffer α) : RingBuffer α := { rb with writeIndex := 0, readIndex := 0 }

def push (size : Nat) (rb : RingBuffer α) (data : α) : Bool × RingBuffer α :=
  let nextWriteIndex := increment size rb.writeIndex
  if nextWriteIndex = rb.readIndex then (false, rb)
  else (true, { rb with
    buf := Function.update rb.buf rb.writeIndex data
    writeIndex := nextWriteIndex })

/-- The popped value stands for the result `true`, `none` for `false`. -/
def pop (size : Nat) (rb : RingBuffer α) : Option α × RingBuffer α :=
  if rb.readIndex = rb.writeIndex then (none, rb)
  else (some (rb.buf rb.readIndex), { rb with readIndex := increment size rb.readIndex })

/-- The loop of `pushs()`, on its copies of the two indices. -/
def pushsLoop [Zero α] [DecidableEq α] (size : Nat) (src : Source α)
    (readIndex writeIndex i : Nat) (rb : RingBuffer α) : Bool × RingBuffer α :=
  if h : src.more i = true then
    let nextWriteIndex := increment size writeIndex
    if nextWriteIndex = readIndex then (false, rb)
    else pushsLoop size src readIndex nextWriteIndex (i + 1)
      { rb with buf := Function.update rb.buf writeIndex (src.fetch i) }
  else (true, { rb with writeIndex := writeIndex })
termination_by src.values.length - i
decreasing_by
  have hlt := (src.more_iff i).mp h
  omega

/-- Both overloads of `pushs()`. -/
def pushs [Zero α] [DecidableEq α] (size : Nat) (rb : RingBuffer α) (src : Source α) :
    Bool × RingBuffer α :=
  pushsLoop size src rb.readIndex rb.writeIndex 0 rb

end RingBuffer

/-- What a producer may call. -/
inductive PushCall (α : Type u) [Zero α]
  | push (data : α)
  | pushs (src : Source α)

/-- Where the producer stands, with its local variables. -/
inductive Producer (α : Type u) [Zero α]
  | idle
  /-- `push()` holds `write_index`. -/
  | pushCompare (data : α) (writeIndex : Nat)
  | pushWrite (data : α) (writeIndex nextWriteIndex : Nat)
  | pushStore (data : α) (nextWriteIndex : Nat)
  /-- `pushs()` holds `write_index`. -/
  | pushsLoad (src : Source α) (writeIndex : Nat)
  | pushsLoop (src : Source α) (writeIndex readIndex i : Nat)
  | pushsWrite (src : Source α) (writeIndex readIndex i nextWriteIndex : Nat)
  | pushsStore (src : Source α) (writeIndex : Nat)

/-- Where the consumer stands in `pop()`. -/
inductive Consumer (α : Type u)
  | idle
  | popCompare (writeIndex : Nat)
  | popRead (readIndex : Nat)
  | popStore (readIndex : Nat) (data : α)

/-- A ring buffer between its producer and its consumer.  `accepted` collects the
values of the successful pushes and `popped` those of the successful pops. -/
structure Channel (α : Type u) [Zero α] where
  ring : RingBuffer α
  producer : Producer α
  consumer : Consumer α
  accepted : List α
  popped : List α

namespace Channel

variable {α : Type u} [Zero α]

/-- After `reset()`, with nobody inside a call. -/
def Initial (s : Channel α) : Prop :=
  ∃ ring : RingBuffer α, s = ⟨ring.reset, .idle, .idle, [], []⟩

/-- The call starts with its first load. -/
def beginCall (call : PushCall α) (s : Channel α) : Channel α :=
  match call with
  | .push data => { s with producer := .pushCompare data s.ring.writeIndex }
  | .pushs src => { s with producer := .pushsLoad src s.ring.writeIndex }

/-- One access of the producer; an idle producer begins the given call. -/
def producerStep [DecidableEq α] (size : Nat) (call : PushCall α) (s : Channel α) :
    Channel α :=
  match s.producer with
  | .idle => s.beginCall call
  | .pushCompare data writeIndex =>
      let nextWriteIndex := RingBuffer.increment size writeIndex
      if nextWriteIndex = s.ring.readIndex then { s with producer := .idle }
      else { s with producer := .pushWrite data writeIndex nextWriteIndex }
  | .pushWrite data writeIndex nextWriteIndex =>
      { s with
        ring.buf := Function.update s.ring.buf writeIndex data
        producer := .pushStore data nextWriteIndex }
  | .pushStore data nextWriteIndex =>
      { s with
        ring.writeIndex := nextWriteIndex
        producer := .idle
        accepted := s.accepted ++ [data] }
  | .pushsLoad src writeIndex =>
      { s with producer := .pushsLoop src writeIndex s.ring.readIndex 0 }
  | .pushsLoop src writeIndex readIndex i =>
      if src.more i then
        let nextWriteIndex := RingBuffer.increment size writeIndex
        -- all the copying before is discarded
        if nextWriteIndex = readIndex then { s with producer := .idle }
        else { s with producer := .pushsWrite src writeIndex readIndex i nextWriteIndex }
      else { s with producer := .pushsStore src writeIndex }
  | .pushsWrite src writeIndex readIndex i nextWriteIndex =>
      { s with
        ring.buf := Function.update s.ring.buf writeIndex (src.fetch i)
        producer := .pushsLoop src nextWriteIndex readIndex (i + 1) }
  | .pushsStore src writeIndex =>
      { s with
        ring.writeIndex := writeIndex
        producer := .idle
        accepted := s.accepted ++ src.values }

/-- One access of the consumer; an idle consumer begins a `pop()`. -/
def consumerStep (size : Nat) (s : Channel α) : Channel α :=
  match s.consumer with
  | .idle => { s with consumer := .popCompare s.ring.writeIndex }
  | .popCompare writeIndex =>
      if s.ring.readIndex = writeIndex then { s with consumer := .idle }
      else { s with consumer := .popRead s.ring.readIndex }
  | .popRead readIndex => { s with consumer := .popStore readIndex (s.ring.buf readIndex) }
  | .popStore readIndex data =>
      { s with
        ring.readIndex := RingBuffer.increment size readIndex
        consumer := .idle
        popped := s.popped ++ [data] }

/-- What the `pop()` under way returns with its next access, if it does then. -/
def popResult (s : Channel α) : Option (Option α) :=
  match s.consumer with
  | .idle | .popRead _ => none
  | .popCompare writeIndex => if s.ring.readIndex = writeIndex then some none else none
  | .popStore _ data => some (some data)

/-- Either side makes its next access. -/
inductive Step [DecidableEq α] (size : Nat) : Channel α → Channel α → Prop
  | producer (call : PushCall α) (s : Channel α) : Step size s (s.producerStep size call)
  | consumer (s : Channel α) : Step size s (s.consumerStep size)

/-- The slot that the producer writes in its next step. -/
def writeSlot (s : Channel α) : Option Nat :=
  match s.producer with
  | .pushWrite _ writeIndex _ => some writeIndex
  | .pushsWrite _ writeIndex _ _ _ => some writeIndex
  | .idle | .pushCompare _ _ | .pushStore _ _ | .pushsLoad _ _ | .pushsLoop _ _ _ _
  | .pushsStore _ _ => none

/-- The slot that the consumer owns until it has stored its new read index. -/
def readSlot (s : Channel α) : Option Nat :=
  match s.consumer with
  | .popRead readIndex => some readIndex
  | .popStore readIndex _ => some readIndex
  | .idle | .popCompare _ => none

/-- The number of elements between the two indices. -/
def published (size : Nat) (s : Channel α) : Nat :=
  (s.ring.writeIndex + size - s.ring.readIndex) % size

/-! Whole calls, as an interrupt handler makes them: nothing comes in between. -/

def atomicPush (size : Nat) (data : α) (s : Channel α) : Channel α :=
  { s with
    ring := (s.ring.push size data).2
    accepted := if (s.ring.push size data).1 then s.accepted ++ [data] else s.accepted }

def atomicPop (size : Nat) (s : Channel α) : Option α × Channel α :=
  match s.ring.pop size with
  | (none, ring) => (none, { s with ring := ring })
  | (some data, ring) => (some data, { s with ring := ring, popped := s.popped ++ [data] })

/-! Neither side touches what belongs to the other. -/

theorem producerStep_consumer [DecidableEq α] (size : Nat) (call : PushCall α)
    (s : Channel α) : (s.producerStep size call).consumer = s.consumer ∧
      (s.producerStep size call).popped = s.popped := by
  simp only [producerStep, beginCall]
  split
  case h_1 => cases call <;> exact ⟨rfl, rfl⟩
  case h_2 => split <;> exact ⟨rfl, rfl⟩
  case h_6 =>
      split
      · split <;> exact ⟨rfl, rfl⟩
      · exact ⟨rfl, rfl⟩
  all_goals exact ⟨rfl, rfl⟩

theorem consumerStep_producer (size : Nat) (s : Channel α) :
    (s.consumerStep size).producer = s.producer ∧
      (s.consumerStep size).accepted = s.accepted := by
  simp only [consumerStep]
  split
  case h_2 => split <;> exact ⟨rfl, rfl⟩
  all_goals exact ⟨rfl, rfl⟩

theorem beginCall_frame (call : PushCall α) (s : Channel α) :
    (s.beginCall call).ring = s.ring ∧ (s.beginCall call).consumer = s.consumer ∧
      (s.beginCall call).popped = s.popped := by
  cases call <;> exact ⟨rfl, rfl, rfl⟩

/-- The popped values are those that `pop()` has returned. -/
theorem consumerStep_popped (size : Nat) (s : Channel α) :
    (s.consumerStep size).popped = s.popped ++ s.popResult.join.toList := by
  cases hpc : s.consumer <;> simp only [consumerStep, popResult, hpc]
  case popCompare => split <;> simp
  all_goals simp

/-- A `pop()` that returns is over. -/
theorem consumer_of_popResult {s : Channel α} {size : Nat} {result : Option α}
    (h : s.popResult = some result) : (s.consumerStep size).consumer = .idle := by
  cases hpc : s.consumer <;> simp only [consumerStep, popResult, hpc] at h ⊢
  case popCompare =>
      split at h
      · next heq => rw [if_pos heq]
      · cases h
  case idle => cases h
  case popRead => cases h

/-- A `pop()` fails where it compares equal indices. -/
theorem popCompare_of_popResult {s : Channel α} (h : s.popResult = some none) :
    ∃ writeIndex, s.consumer = .popCompare writeIndex ∧ s.ring.readIndex = writeIndex := by
  cases hpc : s.consumer <;> simp only [popResult, hpc] at h
  case popCompare writeIndex =>
      split at h
      · next heq => exact ⟨writeIndex, rfl, heq⟩
      · cases h
  all_goals cases h

/-- Only the first access of a `pop()` loads the index that is compared next. -/
theorem consumer_of_popCompare {s : Channel α} {size writeIndex : Nat}
    (h : (s.consumerStep size).consumer = .popCompare writeIndex) : s.consumer = .idle := by
  cases hpc : s.consumer <;> simp only [consumerStep, hpc] at h
  case idle => rfl
  case popCompare => split at h <;> cases h
  all_goals cases h

/-- Either the fifo is empty and nothing happens, or its first value is taken. -/
theorem atomicPop_cases (size : Nat) (s : Channel α) :
    (s.ring.readIndex = s.ring.writeIndex ∧ s.atomicPop size = (none, s)) ∨
    (s.ring.readIndex ≠ s.ring.writeIndex ∧
      s.atomicPop size = (some (s.ring.buf s.ring.readIndex),
        { s with
          ring.readIndex := RingBuffer.increment size s.ring.readIndex
          popped := s.popped ++ [s.ring.buf s.ring.readIndex] })) := by
  by_cases hempty : s.ring.readIndex = s.ring.writeIndex
  · exact .inl ⟨hempty, by simp [atomicPop, RingBuffer.pop, hempty]⟩
  · exact .inr ⟨hempty, by simp [atomicPop, RingBuffer.pop, hempty]⟩

variable [DecidableEq α] {size : Nat}

/-- The producer makes its next accesses without interruption. -/
theorem producerStep_run (call : PushCall α) (n : Nat) (s : Channel α) :
    Relation.ReflTransGen (Step size) s ((producerStep size call)^[n] s) := by
  induction n with
  | zero => exact .refl
  | succ n ih =>
      rw [Function.iterate_succ_apply']
      exact ih.tail (.producer call _)

theorem consumerStep_run (n : Nat) (s : Channel α) :
    Relation.ReflTransGen (Step size) s ((consumerStep size)^[n] s) := by
  induction n with
  | zero => exact .refl
  | succ n ih =>
      rw [Function.iterate_succ_apply']
      exact ih.tail (.consumer _)

/-- A whole `push()` is a run of the producer. -/
theorem atomicPush_run {s : Channel α} (hidle : s.producer = .idle) (data : α) :
    Relation.ReflTransGen (Step size) s (s.atomicPush size data) := by
  obtain ⟨ring, producer, consumer, accepted, popped⟩ := s
  obtain rfl : producer = .idle := hidle
  by_cases hfull : RingBuffer.increment size ring.writeIndex = ring.readIndex
  · have hrun := @producerStep_run α _ _ size (.push data) 2
      ⟨ring, .idle, consumer, accepted, popped⟩
    simpa [producerStep, beginCall, atomicPush, RingBuffer.push, hfull] using hrun
  · have hrun := @producerStep_run α _ _ size (.push data) 4
      ⟨ring, .idle, consumer, accepted, popped⟩
    simpa [producerStep, beginCall, atomicPush, RingBuffer.push, hfull] using hrun

/-- A whole `pop()` is a run of the consumer. -/
theorem atomicPop_run {s : Channel α} (hidle : s.consumer = .idle) :
    Relation.ReflTransGen (Step size) s (s.atomicPop size).2 := by
  obtain ⟨ring, producer, consumer, accepted, popped⟩ := s
  obtain rfl : consumer = .idle := hidle
  by_cases hempty : ring.readIndex = ring.writeIndex
  · have hrun := @consumerStep_run α _ _ size 2 ⟨ring, producer, .idle, accepted, popped⟩
    simpa [consumerStep, atomicPop, RingBuffer.pop, hempty] using hrun
  · have hrun := @consumerStep_run α _ _ size 4 ⟨ring, producer, .idle, accepted, popped⟩
    simpa [consumerStep, atomicPop, RingBuffer.pop, hempty] using hrun

end Channel

end OpenMptl
