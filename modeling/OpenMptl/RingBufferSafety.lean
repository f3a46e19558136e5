/-
Safety of the ring buffer under every interleaving.  With `W` values accepted and
`R` popped, the write index is `W % size` and the read index `R % size`; each
side works on a snapshot of the other index, which is `R₀ % size` for some
`R₀ ≤ R`, or `W₀ % size` for some `W₀ ≤ W`.
-/
import OpenMptl.RingBuffer

namespace OpenMptl

universe u

theorem RingBuffer.increment_mod {size : Nat} (hsize : 0 < size) (hlt : size < 2 ^ 32)
    (k : Nat) : RingBuffer.increment size (k % size) = (k + 1) % size := by
  have hk : k % size < size := Nat.mod_lt k hsize
  have hwrap : (k % size + 1) % 2 ^ 32 = k % size + 1 := Nat.mod_eq_of_lt (by omega)
  simp only [RingBuffer.increment, hwrap]
  rw [← Nat.mod_add_mod k size 1]
  rcases Nat.lt_or_ge (k % size + 1) size with hin | hout
  · rw [if_neg (by omega), Nat.mod_eq_of_lt hin]
  · have heq : k % size + 1 = size := by omega
    rw [if_pos hout, heq, Nat.mod_self]

namespace Producer

variable {α : Type u} [Zero α]

/-- The values that stand in the buffer behind the published ones. -/
def pending : Producer α → List α
  | .idle | .pushCompare _ _ | .pushWrite _ _ _ | .pushsLoad _ _ => []
  | .pushStore data _ => [data]
  | .pushsLoop src _ _ i => src.values.take i
  | .pushsWrite src _ _ i _ => src.values.take i
  | .pushsStore src _ => src.values

/-- What the local variables mean, with `W` values accepted and `R` popped. -/
def Consistent (size W R : Nat) : Producer α → Prop
  | .idle => True
  | .pushCompare _ writeIndex => writeIndex = W % size
  | .pushWrite _ writeIndex nextWriteIndex =>
      writeIndex = W % size ∧ nextWriteIndex = (W + 1) % size ∧ W + 1 < R + size
  | .pushStore _ nextWriteIndex => nextWriteIndex = (W + 1) % size
  | .pushsLoad _ writeIndex => writeIndex = W % size
  | .pushsLoop src writeIndex readIndex i =>
      writeIndex = (W + i) % size ∧ i ≤ src.values.length ∧
        ∃ R₀, readIndex = R₀ % size ∧ R₀ ≤ R ∧ W + i < R₀ + size
  | .pushsWrite src writeIndex readIndex i nextWriteIndex =>
      writeIndex = (W + i) % size ∧ nextWriteIndex = (W + i + 1) % size ∧
        i < src.values.length ∧
        ∃ R₀, readIndex = R₀ % size ∧ R₀ ≤ R ∧ W + i + 1 < R₀ + size
  | .pushsStore src writeIndex => writeIndex = (W + src.values.length) % size

/-- A pop in between does not disturb the producer. -/
theorem Consistent.of_le {size W R R' : Nat} {p : Producer α}
    (h : p.Consistent size W R) (hle : R ≤ R') : p.Consistent size W R' := by
  cases p with
  | idle => trivial
  | pushCompare data writeIndex => exact h
  | pushWrite data writeIndex nextWriteIndex =>
      obtain ⟨hw, hnext, hroom⟩ := h
      exact ⟨hw, hnext, by omega⟩
  | pushStore data nextWriteIndex => exact h
  | pushsLoad src writeIndex => exact h
  | pushsLoop src writeIndex readIndex i =>
      obtain ⟨hw, hi, R₀, hr, hR₀, hroom⟩ := h
      exact ⟨hw, hi, R₀, hr, hR₀.trans hle, hroom⟩
  | pushsWrite src writeIndex readIndex i nextWriteIndex =>
      obtain ⟨hw, hnext, hi, R₀, hr, hR₀, hroom⟩ := h
      exact ⟨hw, hnext, hi, R₀, hr, hR₀.trans hle, hroom⟩
  | pushsStore src writeIndex => exact h

end Producer

namespace Consumer

variable {α : Type u}

/-- What the local variables mean, with `R` values popped. -/
def Consistent (size : Nat) (accepted : List α) (R : Nat) : Consumer α → Prop
  | .idle => True
  | .popCompare writeIndex =>
      ∃ W₀, writeIndex = W₀ % size ∧ R ≤ W₀ ∧ W₀ ≤ accepted.length
  | .popRead readIndex => readIndex = R % size ∧ R < accepted.length
  | .popStore readIndex data => readIndex = R % size ∧ accepted[R]? = some data

/-- A push in between does not disturb the consumer. -/
theorem Consistent.append {size R : Nat} {accepted : List α} {c : Consumer α}
    (h : c.Consistent size accepted R) (values : List α) :
    c.Consistent size (accepted ++ values) R := by
  have hlen : accepted.length ≤ (accepted ++ values).length := by simp
  cases c with
  | idle => trivial
  | popCompare writeIndex =>
      obtain ⟨W₀, hw, hlow, hhigh⟩ := h
      exact ⟨W₀, hw, hlow, hhigh.trans hlen⟩
  | popRead readIndex => exact ⟨h.1, h.2.trans_le hlen⟩
  | popStore readIndex data =>
      have hlt : R < accepted.length := (List.getElem?_eq_some_iff.mp h.2).1
      exact ⟨h.1, by rw [List.getElem?_append_left hlt, h.2]⟩

end Consumer

namespace Channel

variable {α : Type u} [Zero α] {size : Nat} {s : Channel α}

/-- The accepted values, followed by those that are not published yet. -/
def stream (s : Channel α) : List α := s.accepted ++ s.producer.pending

/-- What holds between any two steps. -/
structure Inv (size : Nat) (s : Channel α) : Prop where
  writeIndex : s.ring.writeIndex = s.accepted.length % size
  readIndex : s.ring.readIndex = s.popped.length % size
  order : s.popped <+: s.accepted
  room : s.stream.length < s.popped.length + size
  window : Window size s.ring.buf s.stream s.popped.length
  producer : s.producer.Consistent size s.accepted.length s.popped.length
  consumer : s.consumer.Consistent size s.accepted s.popped.length

theorem Inv.of_initial (hsize : 0 < size) (h : s.Initial) : s.Inv size := by
  obtain ⟨ring, rfl⟩ := h
  exact {
    writeIndex := (Nat.zero_mod size).symm
    readIndex := (Nat.zero_mod size).symm
    order := List.prefix_refl []
    room := by simpa [stream, Producer.pending] using hsize
    window := Window.empty size _
    producer := trivial
    consumer := trivial }

/-- The producer moves on without touching memory; it may drop pending values. -/
theorem Inv.withProducer (h : s.Inv size) {p : Producer α}
    (hpending : p.pending <+: s.producer.pending)
    (hp : p.Consistent size s.accepted.length s.popped.length) :
    Inv size { s with producer := p } := by
  obtain ⟨dropped, hdropped⟩ := hpending
  have hstream : s.stream = (s.accepted ++ p.pending) ++ dropped := by
    rw [stream, ← hdropped, List.append_assoc]
  have hroom := h.room
  have hwindow := h.window
  rw [hstream] at hroom hwindow
  rw [List.length_append] at hroom
  exact { h with
    room := by
      change (s.accepted ++ p.pending).length < s.popped.length + size
      omega
    window := hwindow.of_append
    producer := hp }

/-- The producer writes the slot behind its pending values. -/
theorem Inv.write (h : s.Inv size) {p : Producer α} {slot : Nat} {x : α}
    (hslot : slot = s.stream.length % size)
    (hroom : s.stream.length + 1 < s.popped.length + size)
    (hpending : p.pending = s.producer.pending ++ [x])
    (hp : p.Consistent size s.accepted.length s.popped.length) :
    Inv size { s with
      ring.buf := Function.update s.ring.buf slot x
      producer := p } := by
  have hstream : s.accepted ++ p.pending = s.stream ++ [x] := by
    rw [hpending, stream, List.append_assoc]
  subst hslot
  exact { h with
    room := by
      change (s.accepted ++ p.pending).length < _
      rw [hstream, List.length_append]
      exact hroom
    window := by
      change Window size _ (s.accepted ++ p.pending) _
      rw [hstream]
      exact h.window.write h.room x
    producer := hp }

/-- The store of the write index publishes all pending values. -/
theorem Inv.publish (h : s.Inv size) {values : List α} {index : Nat}
    (hpending : s.producer.pending = values)
    (hindex : index = (s.accepted.length + values.length) % size) :
    Inv size { s with
      ring.writeIndex := index
      producer := .idle
      accepted := s.accepted ++ values } := by
  have hstream : (s.accepted ++ values) ++ (Producer.idle : Producer α).pending =
      s.stream := by
    rw [stream, hpending]
    exact List.append_nil _
  exact { h with
    writeIndex := by
      change index = (s.accepted ++ values).length % size
      rw [hindex, List.length_append]
    order := h.order.trans (List.prefix_append s.accepted values)
    room := by
      change ((s.accepted ++ values) ++ _).length < _
      rw [hstream]
      exact h.room
    window := by
      change Window size _ ((s.accepted ++ values) ++ _) _
      rw [hstream]
      exact h.window
    producer := trivial
    consumer := h.consumer.append values }

theorem Inv.withConsumer (h : s.Inv size) {c : Consumer α}
    (hc : c.Consistent size s.accepted s.popped.length) :
    Inv size { s with consumer := c } :=
  { h with consumer := hc }

/-- The store of the read index gives the slot of the popped value free. -/
theorem Inv.release (h : s.Inv size) {index : Nat} {x : α}
    (hindex : index = (s.popped.length + 1) % size)
    (hx : s.accepted[s.popped.length]? = some x) :
    Inv size { s with
      ring.readIndex := index
      consumer := .idle
      popped := s.popped ++ [x] } := by
  have hlength : (s.popped ++ [x]).length = s.popped.length + 1 := by simp
  have hle : s.popped.length ≤ (s.popped ++ [x]).length := by omega
  exact { h with
    readIndex := by
      change index = (s.popped ++ [x]).length % size
      rw [hindex, hlength]
    order := by
      obtain ⟨rest, hrest⟩ := h.order
      rw [← hrest, List.getElem?_append_right le_rfl, Nat.sub_self] at hx
      cases rest with
      | nil => simp at hx
      | cons y rest =>
          obtain rfl : y = x := by simpa using hx
          exact ⟨rest, by rw [← hrest, List.append_assoc, List.singleton_append]⟩
    room := by
      have hroom := h.room
      change s.stream.length < (s.popped ++ [x]).length + size
      omega
    window := h.window.advance hle
    producer := h.producer.of_le hle
    consumer := trivial }

theorem Inv.popped_le (h : s.Inv size) : s.popped.length ≤ s.accepted.length :=
  h.order.length_le

theorem length_stream (s : Channel α) :
    s.stream.length = s.accepted.length + s.producer.pending.length :=
  List.length_append

theorem Inv.consumerStep (hsize : 0 < size) (hlt : size < 2 ^ 32) (h : s.Inv size) :
    (s.consumerStep size).Inv size := by
  have hc := h.consumer
  unfold Channel.consumerStep
  cases hpc : s.consumer with
  | idle =>
      exact h.withConsumer ⟨s.accepted.length, h.writeIndex, h.popped_le, le_rfl⟩
  | popCompare writeIndex =>
      rw [hpc] at hc
      obtain ⟨W₀, rfl, hlow, hhigh⟩ := hc
      simp only [h.readIndex]
      split
      · exact h.withConsumer trivial
      · next hne =>
          have hlt' : s.popped.length < W₀ :=
            lt_of_le_of_ne hlow fun heq => hne (congrArg (· % size) heq)
          exact h.withConsumer ⟨rfl, by omega⟩
  | popRead readIndex =>
      rw [hpc] at hc
      obtain ⟨rfl, hlen⟩ := hc
      have hget := List.getElem?_eq_getElem hlen
      have hstream : s.stream[s.popped.length]? = some s.accepted[s.popped.length] := by
        rw [stream, List.getElem?_append_left hlen, hget]
      refine h.withConsumer ⟨rfl, ?_⟩
      rw [h.window s.popped.length le_rfl _ hstream, hget]
  | popStore readIndex data =>
      rw [hpc] at hc
      obtain ⟨rfl, hx⟩ := hc
      exact h.release (RingBuffer.increment_mod hsize hlt s.popped.length) hx

variable [DecidableEq α]

theorem Inv.producerStep (hsize : 0 < size) (hlt : size < 2 ^ 32) (h : s.Inv size)
    (call : PushCall α) : (s.producerStep size call).Inv size := by
  have hp := h.producer
  have hstream := s.length_stream
  have hroom := h.room
  have hincrement := RingBuffer.increment_mod hsize hlt
  unfold Channel.producerStep
  cases hpc : s.producer with
  | idle =>
      cases call with
      | push data => exact h.withProducer (List.nil_prefix) h.writeIndex
      | pushs src => exact h.withProducer (List.nil_prefix) h.writeIndex
  | pushCompare data writeIndex =>
      rw [hpc] at hp hstream
      obtain rfl : writeIndex = s.accepted.length % size := hp
      simp only [hincrement, h.readIndex]
      split
      · exact h.withProducer List.nil_prefix trivial
      · next hne =>
          refine h.withProducer List.nil_prefix ⟨rfl, rfl, ?_⟩
          refine lt_round_of_slot_ne ?_ hne
          simp only [Producer.pending, List.length_nil] at hstream
          omega
  | pushWrite data writeIndex nextWriteIndex =>
      rw [hpc] at hp hstream
      obtain ⟨hw, hnext, hfree⟩ := hp
      simp only [Producer.pending, List.length_nil, Nat.add_zero] at hstream
      refine h.write (by rw [hstream, hw]) (by omega) ?_ hnext
      rw [hpc]
      rfl
  | pushStore data nextWriteIndex =>
      rw [hpc] at hp
      exact h.publish (by rw [hpc]; rfl) hp
  | pushsLoad src writeIndex =>
      rw [hpc] at hp hstream
      obtain rfl : writeIndex = s.accepted.length % size := hp
      refine h.withProducer (by simp [Producer.pending]) ⟨rfl, Nat.zero_le _, ?_⟩
      simp only [Producer.pending, List.length_nil] at hstream
      exact ⟨s.popped.length, h.readIndex, le_rfl, by omega⟩
  | pushsLoop src writeIndex readIndex i =>
      rw [hpc] at hp
      obtain ⟨rfl, hi, R₀, rfl, hR₀, hfree⟩ := hp
      by_cases hmore : src.more i = true
      · have hlen := (src.more_iff i).mp hmore
        simp only [hmore, ↓reduceIte, hincrement]
        split
        · exact h.withProducer List.nil_prefix trivial
        · next hne =>
            refine h.withProducer (by rw [hpc]; exact List.prefix_refl _)
              ⟨rfl, rfl, hlen, R₀, rfl, hR₀, ?_⟩
            exact lt_round_of_slot_ne (by omega) hne
      · have hend : i = src.values.length := by
          have hnot := mt (src.more_iff i).mpr hmore
          omega
        simp only [hmore, Bool.false_eq_true, ↓reduceIte]
        refine h.withProducer ?_ (by rw [hend]; rfl)
        rw [hpc, hend]
        simp [Producer.pending]
  | pushsWrite src writeIndex readIndex i nextWriteIndex =>
      rw [hpc] at hp hstream
      obtain ⟨hw, hnext, hi, R₀, hr, hR₀, hfree⟩ := hp
      have hpendingLength : (src.values.take i).length = i := by
        rw [List.length_take]
        omega
      simp only [Producer.pending, hpendingLength] at hstream
      refine h.write (by rw [hstream, hw]) (by omega) ?_ ⟨hnext, hi, R₀, hr, hR₀, by omega⟩
      rw [hpc]
      exact src.take_succ hi
  | pushsStore src writeIndex =>
      rw [hpc] at hp
      exact h.publish (by rw [hpc]; rfl) hp

theorem Inv.step (hsize : 0 < size) (hlt : size < 2 ^ 32) (h : s.Inv size) {t : Channel α}
    (hstep : Step size s t) : t.Inv size := by
  cases hstep with
  | producer call => exact h.producerStep hsize hlt call
  | consumer => exact h.consumerStep hsize hlt

theorem Inv.run (hsize : 0 < size) (hlt : size < 2 ^ 32) (h : s.Inv size) {t : Channel α}
    (hrun : Relation.ReflTransGen (Step size) s t) : t.Inv size := by
  induction hrun with
  | refl => exact h
  | tail _ hstep ih => exact ih.step hsize hlt hstep

/-- The invariant holds in every reachable state. -/
theorem inv_of_reachable (hsize : 0 < size) (hlt : size < 2 ^ 32)
    (h : Reachable Initial (Step size) s) : s.Inv size :=
  h.invariant (fun _ hs => Inv.of_initial hsize hs)
    fun _ _ hs hstep => hs.step hsize hlt hstep

omit [DecidableEq α]

/-- A push succeeds as long as one slot stays free. -/
theorem Inv.atomicPush_accepted (hlt : size < 2 ^ 32) (h : s.Inv size)
    (hroom : s.accepted.length + 1 < s.popped.length + size) (data : α) :
    (s.atomicPush size data).accepted = s.accepted ++ [data] := by
  have hle := h.popped_le
  have hne : RingBuffer.increment size s.ring.writeIndex ≠ s.ring.readIndex := by
    rw [h.writeIndex, h.readIndex, RingBuffer.increment_mod (by omega) hlt]
    exact (slot_ne (Nat.lt_succ_of_le hle) hroom).symm
  simp only [atomicPush, RingBuffer.push, if_neg hne, if_true]

/-- On a fifo that holds a value the next pop takes it. -/
theorem Inv.pop_next (h : s.Inv size) (hidle : s.consumer = .idle) {x : α} {rest : List α}
    (hheld : s.accepted = s.popped ++ x :: rest) :
    let next : Channel α → Channel α := Channel.consumerStep size
    s.popResult = none ∧ (next s).popResult = none ∧ (next (next s)).popResult = none ∧
      (next (next (next s))).popResult = some (some x) ∧
      (next (next (next (next s)))).consumer = .idle ∧
      (next (next (next (next s)))).accepted = s.accepted ∧
      (next (next (next (next s)))).popped = s.popped ++ [x] := by
  have hlength := congrArg List.length hheld
  rw [List.length_append, List.length_cons] at hlength
  have hroom := h.room
  rw [length_stream] at hroom
  have hindex : s.ring.readIndex ≠ s.ring.writeIndex := by
    rw [h.readIndex, h.writeIndex]
    exact slot_ne (by omega) (by omega)
  have hx : s.ring.buf s.ring.readIndex = x := by
    rw [h.readIndex]
    refine h.window s.popped.length le_rfl x ?_
    rw [stream, hheld, List.append_assoc, List.getElem?_append_right le_rfl, Nat.sub_self]
    rfl
  simp [Channel.consumerStep, popResult, hidle, hindex, hx]

/-- On an empty fifo the next pop takes nothing. -/
theorem Inv.pop_empty (h : s.Inv size) (hidle : s.consumer = .idle)
    (hempty : s.popped = s.accepted) :
    let next : Channel α → Channel α := Channel.consumerStep size
    s.popResult = none ∧ (next s).popResult = some none ∧ (next (next s)).consumer = .idle ∧
      (next (next s)).accepted = s.accepted ∧ (next (next s)).popped = s.popped := by
  have hindex : s.ring.readIndex = s.ring.writeIndex := by
    rw [h.readIndex, h.writeIndex, hempty]
  simp [Channel.consumerStep, popResult, hidle, hindex]

/-- A pop that finds nothing has taken all that was accepted when it loaded the index. -/
theorem Inv.popped_eq_of_compare (h : s.Inv size) {t : Channel α} (ht : t.Inv size)
    (hpopped : t.popped = s.popped) (hring : t.ring.readIndex = s.ring.writeIndex) :
    t.popped = s.accepted := by
  have hroom := h.room
  rw [length_stream] at hroom
  have hle := h.popped_le
  have hindex := ht.readIndex
  rw [hring, h.writeIndex, hpopped] at hindex
  rw [hpopped]
  refine h.order.eq_of_length (by_contra fun hne => ?_)
  exact slot_ne (by omega) (by omega) hindex.symm

theorem Inv.published_eq (h : s.Inv size) :
    s.published size = s.accepted.length - s.popped.length := by
  have hroom := h.room
  rw [length_stream] at hroom
  rw [published, h.writeIndex, h.readIndex]
  exact slot_distance h.popped_le (by omega)

/-- Nothing is lost, duplicated or reordered: the accepted values are the popped
ones followed by what stands between the indices. -/
theorem Inv.accepted_eq (h : s.Inv size) :
    s.accepted = s.popped ++ (List.range (s.published size)).map fun k =>
      s.ring.buf ((s.ring.readIndex + k) % size) := by
  obtain ⟨rest, hrest⟩ := h.order
  have hdrop := h.window.of_append.drop_eq
  rw [← hrest, List.drop_left, hrest] at hdrop
  rw [h.published_eq, h.readIndex]
  simp only [Nat.mod_add_mod]
  rw [← hdrop, hrest]

theorem Inv.writeSlot_eq (h : s.Inv size) {slot : Nat} (hslot : s.writeSlot = some slot) :
    slot = s.stream.length % size := by
  have hp := h.producer
  rw [length_stream]
  unfold writeSlot at hslot
  cases hpc : s.producer with
  | pushWrite data writeIndex nextWriteIndex =>
      simp only [hpc, Option.some.injEq] at hslot
      rw [hpc] at hp
      rw [← hslot, hp.1]
      rfl
  | pushsWrite src writeIndex readIndex i nextWriteIndex =>
      simp only [hpc, Option.some.injEq] at hslot
      rw [hpc] at hp
      obtain ⟨hw, -, hi, -⟩ := hp
      have hlen : (src.values.take i).length = i := by
        rw [List.length_take]
        omega
      rw [← hslot, hw]
      simp only [Producer.pending, hlen]
  | idle | pushCompare | pushStore | pushsLoad | pushsLoop | pushsStore =>
      simp [hpc] at hslot

theorem Inv.readSlot_eq (h : s.Inv size) {slot : Nat} (hslot : s.readSlot = some slot) :
    slot = s.popped.length % size ∧ s.popped.length < s.accepted.length := by
  have hc := h.consumer
  unfold readSlot at hslot
  cases hpc : s.consumer with
  | popRead readIndex =>
      simp only [hpc, Option.some.injEq] at hslot
      rw [hpc] at hc
      exact hslot ▸ hc
  | popStore readIndex data =>
      simp only [hpc, Option.some.injEq] at hslot
      rw [hpc] at hc
      exact ⟨hslot ▸ hc.1, (List.getElem?_eq_some_iff.mp hc.2).1⟩
  | idle | popCompare => simp [hpc] at hslot

/-- The slot that the producer writes is never the one the consumer owns. -/
theorem Inv.writeSlot_ne_readSlot (h : s.Inv size) {w r : Nat} (hw : s.writeSlot = some w)
    (hr : s.readSlot = some r) : w ≠ r := by
  obtain ⟨hread, hlt⟩ := h.readSlot_eq hr
  rw [h.writeSlot_eq hw, hread]
  have hroom := h.room
  rw [length_stream] at hroom ⊢
  exact (slot_ne (by omega) (by omega)).symm

end Channel

/-- Every interleaving of one producer and one consumer keeps the ring buffer
intact. -/
theorem ringBuffer_interleaving_safe {α : Type u} [Zero α] [DecidableEq α] {size : Nat}
    (hsize : 1 ≤ size) (hlt : size < 2 ^ 32) {s : Channel α}
    (h : Reachable Channel.Initial (Channel.Step size) s) :
    (s.ring.writeIndex < size ∧ s.ring.readIndex < size) ∧
    (s.published size = s.accepted.length - s.popped.length ∧
      s.published size ≤ size - 1) ∧
    (s.popped <+: s.accepted ∧
      s.accepted = s.popped ++ (List.range (s.published size)).map fun k =>
        s.ring.buf ((s.ring.readIndex + k) % size)) ∧
    (∀ w, s.writeSlot = some w → w < size ∧ ∀ r, s.readSlot = some r → w ≠ r) ∧
    (∀ r, s.readSlot = some r → r < size) := by
  have hinv := Channel.inv_of_reachable hsize hlt h
  have hpublished := hinv.published_eq
  have hroom := hinv.room
  rw [Channel.length_stream] at hroom
  refine ⟨⟨?_, ?_⟩, ⟨hpublished, by omega⟩, ⟨hinv.order, hinv.accepted_eq⟩, ?_, ?_⟩
  · rw [hinv.writeIndex]
    exact Nat.mod_lt _ hsize
  · rw [hinv.readIndex]
    exact Nat.mod_lt _ hsize
  · intro w hw
    refine ⟨?_, fun r hr => hinv.writeSlot_ne_readSlot hw hr⟩
    rw [hinv.writeSlot_eq hw]
    exact Nat.mod_lt _ hsize
  · intro r hr
    rw [(hinv.readSlot_eq hr).1]
    exact Nat.mod_lt _ hsize

namespace RingBufferTest

def start : Channel Nat := ⟨⟨0, 0, fun _ => 0⟩, .idle, .idle, [], []⟩

/-- A value is held; the next one is about to be written while the first is being read. -/
def between : Channel Nat :=
  let held := start.atomicPush 3 7
  let loaded := (held.producerStep 3 (.push 8)).consumerStep 3
  (loaded.producerStep 3 (.push 8)).consumerStep 3

/-- Both go on by turns until `push()` and `pop()` have returned. -/
def returned : Channel Nat :=
  let stored := (between.producerStep 3 (.push 8)).consumerStep 3
  (stored.producerStep 3 (.push 8)).consumerStep 3

theorem ringBuffer_interleaving_safe_push_pop :
    between.writeSlot = some 1 ∧ between.readSlot = some 0 ∧ (1 : Nat) ≠ 0 ∧
      returned.accepted = [7, 8] ∧ returned.popped = [7] ∧
      returned.popped <+: returned.accepted ∧ returned.published 3 ≤ 2 := by
  have hinit : Channel.Initial start := ⟨start.ring, rfl⟩
  have hheld := (Reachable.start hinit).run
    (@Channel.atomicPush_run Nat _ _ 3 start rfl 7)
  have hbetween : Reachable Channel.Initial (Channel.Step 3) between :=
    (((hheld.next (.producer (.push 8) _)).next (.consumer _)).next
      (.producer (.push 8) _)).next (.consumer _)
  have hreturned : Reachable Channel.Initial (Channel.Step 3) returned :=
    (((hbetween.next (.producer (.push 8) _)).next (.consumer _)).next
      (.producer (.push 8) _)).next (.consumer _)
  have hslots := (ringBuffer_interleaving_safe (by decide) (by decide) hbetween).2.2.2.1
  have hsafe := ringBuffer_interleaving_safe (by decide) (by decide) hreturned
  exact ⟨rfl, rfl, (hslots 1 rfl).2 0 rfl, rfl, rfl, hsafe.2.2.1.1, hsafe.2.1.2⟩

end RingBufferTest

end OpenMptl
