/-
The ring buffer as a queue.  A ring holds the elements that stand between its
two indices; as long as nobody comes in between, every call answers as a
bounded queue with `size - 1` places does.
-/
import OpenMptl.BoundedQueue
import OpenMptl.RingBufferSafety

namespace OpenMptl

universe u

namespace RingBuffer

variable {α : Type u} {size : Nat} {rb : RingBuffer α} {q : List α}

/-- The ring holds the elements of `q`, the oldest one at the read index. -/
structure Represents (size : Nat) (rb : RingBuffer α) (q : List α) : Prop where
  room : q.length < size
  readIndex_lt : rb.readIndex < size
  writeIndex : rb.writeIndex = (rb.readIndex + q.length) % size
  slots : ∀ k x, q[k]? = some x → rb.buf ((rb.readIndex + k) % size) = x

theorem Represents.of_reset (hsize : 0 < size) (rb : RingBuffer α) :
    rb.reset.Represents size [] where
  room := hsize
  readIndex_lt := hsize
  writeIndex := (Nat.zero_mod size).symm
  slots := by simp

/-- Only the oldest elements are left when the write index is set back. -/
theorem Represents.truncate {p : List α} (h : rb.Represents size (q ++ p)) :
    Represents size { rb with writeIndex := (rb.readIndex + q.length) % size } q where
  room := by
      have hroom := h.room
      rw [List.length_append] at hroom
      omega
  readIndex_lt := h.readIndex_lt
  writeIndex := rfl
  slots := by
      intro k x hx
      have hlt : k < q.length := (List.getElem?_eq_some_iff.mp hx).1
      exact h.slots k x (by rw [List.getElem?_append_left hlt, hx])

/-- The next write index is taken exactly when all places but one are. -/
theorem Represents.full_iff (hlt : size < 2 ^ 32) (h : rb.Represents size q) :
    increment size rb.writeIndex = rb.readIndex ↔ q.length + 1 = size := by
  have hroom := h.room
  have hread := Nat.mod_eq_of_lt h.readIndex_lt
  rw [h.writeIndex, increment_mod (by omega) hlt, Nat.add_assoc]
  constructor
  · intro heq
    by_contra hne
    have hfree : rb.readIndex + (q.length + 1) < rb.readIndex + size := by omega
    exact slot_ne (by omega) hfree (by rw [hread, heq])
  · intro heq
    rw [heq, Nat.add_mod_right, hread]

/-- Either the ring is full and nothing happens, or the value is appended. -/
theorem Represents.push_cases (hlt : size < 2 ^ 32) (h : rb.Represents size q) (data : α) :
    (q.length + 1 = size ∧ rb.push size data = (false, rb)) ∨
    (q.length + 1 < size ∧ (rb.push size data).1 = true ∧
      (rb.push size data).2.readIndex = rb.readIndex ∧
      (rb.push size data).2.Represents size (q ++ [data])) := by
  have hroom := h.room
  have hfull := h.full_iff hlt
  unfold RingBuffer.push
  by_cases hcase : increment size rb.writeIndex = rb.readIndex
  · exact .inl ⟨hfull.mp hcase, by rw [if_pos hcase]⟩
  · have hlen : q.length + 1 < size := by
      have hne := mt hfull.mpr hcase
      omega
    rw [if_neg hcase]
    refine .inr ⟨hlen, rfl, rfl, ?_⟩
    exact {
      room := by
        rw [List.length_append]
        exact hlen
      readIndex_lt := h.readIndex_lt
      writeIndex := by
        change increment size rb.writeIndex = _
        rw [h.writeIndex, increment_mod (by omega) hlt, List.length_append, Nat.add_assoc]
        rfl
      slots := by
        intro k x hx
        change Function.update rb.buf rb.writeIndex data ((rb.readIndex + k) % size) = x
        rw [h.writeIndex]
        rcases Nat.lt_or_ge k q.length with hk | hk
        · rw [List.getElem?_append_left hk] at hx
          rw [Function.update_of_ne (slot_ne (by omega) (by omega))]
          exact h.slots k x hx
        · have hbound := (List.getElem?_eq_some_iff.mp hx).1
          rw [List.length_append, List.length_singleton] at hbound
          obtain rfl : k = q.length := by omega
          rw [List.getElem?_concat_length, Option.some.injEq] at hx
          rw [Function.update_self, hx] }

/-- The answer of a write that takes all elements of `xs` or none. -/
structure Writes (size : Nat) (q xs : List α) (answer : Bool × RingBuffer α) : Prop where
  taken_iff : answer.1 = true ↔ q.length + xs.length < size
  taken : answer.1 = true → answer.2.Represents size (q ++ xs)
  refused : answer.1 = false → answer.2.Represents size q

theorem Writes.cases {xs : List α} {answer : Bool × RingBuffer α}
    (h : Writes size q xs answer) :
    (answer.1 = true ∧ answer.2.Represents size (q ++ xs)) ∨
      (answer.1 = false ∧ answer.2.Represents size q ∧ size ≤ q.length + xs.length) := by
  cases hok : answer.1 with
  | true => exact .inl ⟨rfl, h.taken hok⟩
  | false =>
      have hlong : ¬ q.length + xs.length < size := by simp [← h.taken_iff, hok]
      exact .inr ⟨rfl, h.refused hok, Nat.le_of_not_lt hlong⟩

/-- It is the answer of the bounded queue. -/
theorem Writes.offer {queue : BoundedQueue α (size - 1)} {xs : List α}
    {answer : Bool × RingBuffer α} (h : Writes size queue.elems xs answer)
    (hrb : rb.Represents size queue.elems) :
    answer.1 = (queue.offer xs).1 ∧ answer.2.Represents size (queue.offer xs).2.elems := by
  have hroom := hrb.room
  rcases h.cases with ⟨hok, hnext⟩ | ⟨hfail, hnext, hlong⟩
  · have hfits : xs.length ≤ queue.room := by
      have hlen := h.taken_iff.mp hok
      rw [BoundedQueue.room]
      omega
    obtain ⟨htrue, helems⟩ := BoundedQueue.offer_of_le hfits
    rw [hok, htrue, helems]
    exact ⟨rfl, hnext⟩
  · have hlt : queue.room < xs.length := by
      rw [BoundedQueue.room]
      omega
    rw [BoundedQueue.offer_of_lt hlt, hfail]
    exact ⟨rfl, hnext⟩

theorem Represents.push (hlt : size < 2 ^ 32) (h : rb.Represents size q) (data : α) :
    Writes size q [data] (rb.push size data) := by
  rcases h.push_cases hlt data with ⟨hfull, hpush⟩ | ⟨hfree, hok, -, hnext⟩
  · rw [hpush]
    exact {
      taken_iff := by
        simp only [Bool.false_eq_true, false_iff, List.length_singleton]
        omega
      taken := by simp
      refused := fun _ => h }
  · exact {
      taken_iff := by simpa [hok] using hfree
      taken := fun _ => hnext
      refused := by simp [hok] }

theorem Represents.pop (hlt : size < 2 ^ 32) (h : rb.Represents size q) :
    (rb.pop size).1 = q.head? ∧ (rb.pop size).2.Represents size q.tail := by
  have hroom := h.room
  have hread := Nat.mod_eq_of_lt h.readIndex_lt
  cases q with
  | nil =>
      have hempty : rb.readIndex = rb.writeIndex := by
        rw [h.writeIndex, List.length_nil, Nat.add_zero, hread]
      rw [RingBuffer.pop, if_pos hempty]
      exact ⟨rfl, h⟩
  | cons x q =>
      rw [List.length_cons] at hroom
      have hne : rb.readIndex ≠ rb.writeIndex := by
        rw [h.writeIndex, List.length_cons]
        nth_rewrite 1 [← hread]
        exact slot_ne (by omega) (by omega)
      have hfirst : rb.buf rb.readIndex = x := by
        have hslot := h.slots 0 x rfl
        rwa [Nat.add_zero, hread] at hslot
      have hnext : increment size rb.readIndex = (rb.readIndex + 1) % size := by
        nth_rewrite 1 [← hread]
        exact increment_mod (by omega) hlt _
      rw [RingBuffer.pop, if_neg hne]
      exact ⟨by rw [hfirst]; rfl, {
        room := by
          rw [List.tail_cons]
          omega
        readIndex_lt := by
          rw [hnext]
          exact Nat.mod_lt _ (by omega)
        writeIndex := by
          rw [h.writeIndex, hnext, Nat.mod_add_mod, List.length_cons, List.tail_cons]
          congr 1
          omega
        slots := by
          intro k y hy
          change rb.buf ((increment size rb.readIndex + k) % size) = y
          rw [hnext, Nat.mod_add_mod, Nat.add_assoc, Nat.add_comm 1 k]
          exact h.slots (k + 1) y hy }⟩

/-- Successive `push()` calls, up to the first one that fails. -/
def pushEach (size : Nat) : RingBuffer α → List α → Bool × RingBuffer α
  | rb, [] => (true, rb)
  | rb, x :: xs =>
      match rb.push size x with
      | (false, rb') => (false, rb')
      | (true, rb') => pushEach size rb' xs

theorem Represents.pushEach (hlt : size < 2 ^ 32) (h : rb.Represents size q) (xs : List α) :
    ((rb.pushEach size xs).1 = true ↔ q.length + xs.length < size) ∧
    (rb.pushEach size xs).2.readIndex = rb.readIndex ∧
    ∃ ys, (rb.pushEach size xs).2.Represents size (q ++ ys) ∧
      ((rb.pushEach size xs).1 = true → ys = xs) := by
  induction xs generalizing rb q with
  | nil =>
      refine ⟨?_, rfl, [], ?_, fun _ => rfl⟩
      · simpa [RingBuffer.pushEach] using h.room
      · rwa [List.append_nil]
  | cons x xs ih =>
      rw [RingBuffer.pushEach, List.length_cons]
      rcases h.push_cases hlt x with ⟨hfull, hpush⟩ | ⟨hfree, hok, hread, hnext⟩
      · rw [hpush]
        refine ⟨?_, rfl, [], ?_, by simp⟩
        · simp only [Bool.false_eq_true, false_iff]
          omega
        · rwa [List.append_nil]
      · generalize rb.push size x = answer at hok hread hnext
        obtain ⟨ok, rb'⟩ := answer
        obtain rfl : ok = true := hok
        obtain ⟨hiff, hread', ys, hys, hall⟩ := ih hnext
        rw [List.append_assoc, List.singleton_append] at hys
        refine ⟨?_, hread'.trans hread, x :: ys, hys, fun ht => by rw [hall ht]⟩
        rw [hiff, List.length_append, List.length_singleton]
        omega

theorem pushEach_cons_of_full {x : α} {xs : List α}
    (h : increment size rb.writeIndex = rb.readIndex) :
    rb.pushEach size (x :: xs) = (false, rb) := by
  rw [pushEach, push, if_pos h]

theorem pushEach_cons_of_free {x : α} {xs : List α}
    (h : increment size rb.writeIndex ≠ rb.readIndex) :
    rb.pushEach size (x :: xs) = pushEach size { rb with
      buf := Function.update rb.buf rb.writeIndex x
      writeIndex := increment size rb.writeIndex } xs := by
  rw [pushEach, push, if_neg h]

variable [Zero α] [DecidableEq α]

/-- A round of the loop is a `push()` on the local write index. -/
theorem pushsLoop_eq (src : Source α) {readIndex : Nat} (writeIndex i : Nat)
    (rb : RingBuffer α) (hread : readIndex = rb.readIndex) (hi : i ≤ src.values.length) :
    pushsLoop size src readIndex writeIndex i rb =
      let t := pushEach size { rb with writeIndex := writeIndex } (src.values.drop i)
      (t.1, if t.1 then t.2 else { t.2 with writeIndex := rb.writeIndex }) := by
  fun_induction pushsLoop size src readIndex writeIndex i rb with
  | case1 writeIndex i rb hmore nextWriteIndex hfull =>
      have hlt := (src.more_iff i).mp hmore
      rw [List.drop_eq_getElem_cons hlt, pushEach_cons_of_full (hfull.trans hread)]
      rfl
  | case2 writeIndex i rb hmore nextWriteIndex hfree ih =>
      have hlt := (src.more_iff i).mp hmore
      have hfetch : src.fetch i = src.values[i] := List.getD_eq_getElem _ _ hlt
      rw [List.drop_eq_getElem_cons hlt, pushEach_cons_of_free (hread ▸ hfree), ih hread hlt,
        hfetch]
  | case3 writeIndex i rb hmore =>
      have hend : i = src.values.length := by
        have hnot := mt (src.more_iff i).mpr hmore
        omega
      rw [hend, List.drop_length, pushEach]
      rfl

/-- `pushs()` makes all its pushes or takes the write index back. -/
theorem pushs_eq (src : Source α) (rb : RingBuffer α) :
    rb.pushs size src =
      let t := rb.pushEach size src.values
      (t.1, if t.1 then t.2 else { t.2 with writeIndex := rb.writeIndex }) :=
  pushsLoop_eq src rb.writeIndex 0 rb rfl (Nat.zero_le _)

theorem pushs_eq_pushEach {src : Source α} (h : (rb.pushs size src).1 = true) :
    rb.pushs size src = rb.pushEach size src.values := by
  rw [pushs_eq] at h ⊢
  dsimp only at h ⊢
  rw [if_pos h]

theorem Represents.pushs (hlt : size < 2 ^ 32) (h : rb.Represents size q) (src : Source α) :
    Writes size q src.values (rb.pushs size src) := by
  obtain ⟨hiff, hread, ys, hys, hall⟩ := h.pushEach hlt src.values
  rw [pushs_eq]
  exact {
    taken_iff := hiff
    taken := by
      intro hok
      dsimp only at hok ⊢
      rw [if_pos hok]
      exact hall hok ▸ hys
    refused := by
      intro hfail
      dsimp only at hfail ⊢
      rw [if_neg (by simp [hfail]), h.writeIndex, ← hread]
      exact hys.truncate }

/-- What may be called while nobody comes in between. -/
inductive Call (α : Type u) [Zero α]
  | push (data : α)
  | pop
  | pushs (src : Source α)

/-- The result of a call, as the bounded queue gives it. -/
def call (size : Nat) (rb : RingBuffer α) : Call α → BoundedQueue.Answer α × RingBuffer α
  | .push data => (.offered (rb.push size data).1, (rb.push size data).2)
  | .pop => (.polled (rb.pop size).1, (rb.pop size).2)
  | .pushs src => (.offered (rb.pushs size src).1, (rb.pushs size src).2)

omit [DecidableEq α] in
/-- What a call means for the queue. -/
def Call.toQueue : Call α → BoundedQueue.Call α
  | .push data => .offer [data]
  | .pop => .poll
  | .pushs src => .offer src.values

omit [DecidableEq α] in
/-- The elements that a call wants to write. -/
def Call.elements : Call α → List α
  | .push data => [data]
  | .pop => []
  | .pushs src => src.values

/-- What a call can do to the elements held. -/
theorem Represents.call_cases (hlt : size < 2 ^ 32) (h : rb.Represents size q)
    (k : Call α) :
    ((rb.call size k).1 = .offered true ∧
      (rb.call size k).2.Represents size (q ++ k.elements)) ∨
    ((rb.call size k).1 = .offered false ∧ (rb.call size k).2.Represents size q ∧
      size ≤ q.length + k.elements.length) ∨
    (∃ x rest, q = x :: rest ∧ (rb.call size k).1 = .polled (some x) ∧
      (rb.call size k).2.Represents size rest) ∨
    (q = [] ∧ (rb.call size k).1 = .polled none ∧ (rb.call size k).2.Represents size []) := by
  cases k with
  | push data =>
      rcases (h.push hlt data).cases with ⟨hok, hnext⟩ | ⟨hfail, hnext, hlong⟩
      · exact .inl ⟨congrArg _ hok, hnext⟩
      · exact .inr (.inl ⟨congrArg _ hfail, hnext, hlong⟩)
  | pop =>
      obtain ⟨hvalue, hnext⟩ := h.pop hlt
      cases q with
      | nil => exact .inr (.inr (.inr ⟨rfl, congrArg _ hvalue, hnext⟩))
      | cons x rest => exact .inr (.inr (.inl ⟨x, rest, rfl, congrArg _ hvalue, hnext⟩))
  | pushs src =>
      rcases (h.pushs hlt src).cases with ⟨hok, hnext⟩ | ⟨hfail, hnext, hlong⟩
      · exact .inl ⟨congrArg _ hok, hnext⟩
      · exact .inr (.inl ⟨congrArg _ hfail, hnext, hlong⟩)

/-- Every call answers as the bounded queue does. -/
theorem call_refines (hlt : size < 2 ^ 32) (rb : RingBuffer α)
    (queue : BoundedQueue α (size - 1)) (c : Call α) (h : rb.Represents size queue.elems) :
    (rb.call size c).1 = (queue.call c.toQueue).1 ∧
      (rb.call size c).2.Represents size (queue.call c.toQueue).2.elems := by
  cases c with
  | push data =>
      obtain ⟨hanswer, hnext⟩ := (h.push hlt data).offer h
      exact ⟨congrArg _ hanswer, hnext⟩
  | pop =>
      obtain ⟨hvalue, hnext⟩ := h.pop hlt
      obtain ⟨elems, hle⟩ := queue
      cases elems with
      | nil => exact ⟨congrArg _ hvalue, hnext⟩
      | cons x xs => exact ⟨congrArg _ hvalue, hnext⟩
  | pushs src =>
      obtain ⟨hanswer, hnext⟩ := (h.pushs hlt src).offer h
      exact ⟨congrArg _ hanswer, hnext⟩

/-- No sequence of calls can tell the ring from the bounded queue. -/
theorem Represents.callAll (hlt : size < 2 ^ 32) {queue : BoundedQueue α (size - 1)}
    (h : rb.Represents size queue.elems) (cs : List (Call α)) :
    (OpenMptl.callAll (call size) rb cs).1 =
        (OpenMptl.callAll BoundedQueue.call queue (cs.map Call.toQueue)).1 ∧
      (OpenMptl.callAll (call size) rb cs).2.Represents size
        (OpenMptl.callAll BoundedQueue.call queue (cs.map Call.toQueue)).2.elems :=
  callAll_simulation Call.toQueue
    (fun (rb : RingBuffer α) (queue : BoundedQueue α (size - 1)) =>
      rb.Represents size queue.elems)
    (fun rb queue c h => call_refines hlt rb queue c h) cs h

/-- After `reset()` the ring is the empty queue to everyone who calls it. -/
theorem reset_refines_queue (hsize : 0 < size) (hlt : size < 2 ^ 32) (rb : RingBuffer α)
    (cs : List (Call α)) :
    (OpenMptl.callAll (call size) rb.reset cs).1 =
      (OpenMptl.callAll BoundedQueue.call (BoundedQueue.empty : BoundedQueue α (size - 1))
        (cs.map Call.toQueue)).1 := by
  have hreset : rb.reset.Represents size
      (BoundedQueue.empty : BoundedQueue α (size - 1)).elems := .of_reset hsize rb
  exact (hreset.callAll hlt cs).1

/-- Rings that hold the same elements cannot be told apart. -/
theorem Represents.answers_eq (hlt : size < 2 ^ 32) {rb' : RingBuffer α}
    (h : rb.Represents size q) (h' : rb'.Represents size q) (cs : List (Call α)) :
    (OpenMptl.callAll (call size) rb cs).1 = (OpenMptl.callAll (call size) rb' cs).1 := by
  have hle : q.length ≤ size - 1 := Nat.le_sub_one_of_lt h.room
  let queue : BoundedQueue α (size - 1) := ⟨q, hle⟩
  have hrb : rb.Represents size queue.elems := h
  have hrb' : rb'.Represents size queue.elems := h'
  exact (hrb.callAll hlt cs).1.trans (hrb'.callAll hlt cs).1.symm

end RingBuffer

end OpenMptl
