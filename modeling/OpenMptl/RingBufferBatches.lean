/-
Batches in the ring buffer.  `pushs()` takes all elements of its argument or none;
to a consumer in between, the elements of one call become visible together.
-/
import OpenMptl.RingBufferQueue

namespace OpenMptl

universe u

namespace Channel

variable {α : Type u} [Zero α] {size : Nat} {s : Channel α}

/-- The accepted elements that have not been popped. -/
def held (s : Channel α) : List α := s.accepted.drop s.popped.length

theorem Inv.represents (hsize : 0 < size) (h : s.Inv size) :
    s.ring.Represents size s.held := by
  have hle := h.popped_le
  have hroom := h.room
  rw [length_stream] at hroom
  have hlength : s.held.length = s.accepted.length - s.popped.length := List.length_drop
  exact {
    room := by
      rw [hlength]
      omega
    readIndex_lt := by
      rw [h.readIndex]
      exact Nat.mod_lt _ hsize
    writeIndex := by
      rw [h.writeIndex, h.readIndex, Nat.mod_add_mod, hlength]
      congr 1
      omega
    slots := by
      intro k x hx
      rw [held, List.getElem?_drop] at hx
      rw [h.readIndex, Nat.mod_add_mod]
      exact h.window.of_append _ (Nat.le_add_right _ k) x hx }

variable [DecidableEq α]

/-- A whole `pushs()`, with nobody in between. -/
def atomicPushs (size : Nat) (src : Source α) (s : Channel α) : Channel α :=
  { s with
    ring := (s.ring.pushs size src).2
    accepted := if (s.ring.pushs size src).1 then s.accepted ++ src.values else s.accepted }

/-- The loop of `pushs()` is a run of the producer. -/
theorem pushsLoop_run (call : PushCall α) (src : Source α) (readIndex writeIndex i : Nat)
    (rb : RingBuffer α) (consumer : Consumer α) (accepted popped : List α) :
    let answer := rb.pushsLoop size src readIndex writeIndex i
    Relation.ReflTransGen (Step size)
      ⟨rb, .pushsLoop src writeIndex readIndex i, consumer, accepted, popped⟩
      ⟨answer.2, .idle, consumer,
        if answer.1 then accepted ++ src.values else accepted, popped⟩ := by
  fun_induction RingBuffer.pushsLoop size src readIndex writeIndex i rb with
  | case1 writeIndex i rb hmore nextWriteIndex hfull =>
      have hrun := @producerStep_run α _ _ size call 1
        ⟨rb, .pushsLoop src writeIndex readIndex i, consumer, accepted, popped⟩
      simpa [producerStep, hmore, nextWriteIndex, hfull] using hrun
  | case2 writeIndex i rb hmore nextWriteIndex hfree ih =>
      have hrun := @producerStep_run α _ _ size call 2
        ⟨rb, .pushsLoop src writeIndex readIndex i, consumer, accepted, popped⟩
      have hround : (producerStep size call)^[2]
          ⟨rb, .pushsLoop src writeIndex readIndex i, consumer, accepted, popped⟩ =
          ⟨{ rb with buf := Function.update rb.buf writeIndex (src.fetch i) },
            .pushsLoop src nextWriteIndex readIndex (i + 1), consumer, accepted, popped⟩ := by
        simp [producerStep, hmore, nextWriteIndex, hfree]
      rw [hround] at hrun
      exact hrun.trans ih
  | case3 writeIndex i rb hmore =>
      have hrun := @producerStep_run α _ _ size call 2
        ⟨rb, .pushsLoop src writeIndex readIndex i, consumer, accepted, popped⟩
      simpa [producerStep, hmore] using hrun

/-- A whole `pushs()` is a run of the producer. -/
theorem atomicPushs_run (hidle : s.producer = .idle) (src : Source α) :
    Relation.ReflTransGen (Step size) s (s.atomicPushs size src) := by
  obtain ⟨ring, producer, consumer, accepted, popped⟩ := s
  obtain rfl : producer = .idle := hidle
  have hload := @producerStep_run α _ _ size (.pushs src) 2
    ⟨ring, .idle, consumer, accepted, popped⟩
  exact hload.trans (pushsLoop_run (.pushs src) src ring.readIndex ring.writeIndex 0 ring
    consumer accepted popped)

end Channel

/-- What a `pop()` finds that has loaded this write index. -/
def RingBuffer.visible {α : Type u} (size : Nat) (rb : RingBuffer α) (writeIndex : Nat) :
    List α :=
  (List.range ((writeIndex + size - rb.readIndex) % size)).map fun k =>
    rb.buf ((rb.readIndex + k) % size)

/-- A load that has seen the first elements accepted finds those not popped yet. -/
theorem Channel.Inv.visible_eq {α : Type u} [Zero α] {size : Nat} {s : Channel α}
    (h : s.Inv size) {seen : List α} (hseen : seen <+: s.accepted)
    (hle : s.popped.length ≤ seen.length) :
    s.popped ++ s.ring.visible size (seen.length % size) = seen := by
  have hroom := h.room
  rw [Channel.length_stream] at hroom
  have hlen := hseen.length_le
  have hdistance : (seen.length % size + size - s.popped.length % size) % size =
      seen.length - s.popped.length := slot_distance hle (by omega)
  have hwindow : Window size s.ring.buf seen s.popped.length := by
    obtain ⟨rest, hrest⟩ := hseen
    have hall := h.window.of_append
    rw [← hrest] at hall
    exact hall.of_append
  have hpopped : s.popped = seen.take s.popped.length :=
    List.prefix_iff_eq_take.mp (List.prefix_of_prefix_length_le h.order hseen hle)
  rw [RingBuffer.visible, h.readIndex, hdistance]
  simp only [Nat.mod_add_mod]
  rw [← hwindow.drop_eq]
  nth_rewrite 1 [hpopped]
  exact List.take_append_drop _ _

/-- The batch that the producer publishes with its next access. -/
def Producer.publishes {α : Type u} [Zero α] : Producer α → List (List α)
  | .pushStore data _ => [[data]]
  | .pushsStore src _ => [src.values]
  | .idle | .pushCompare _ _ | .pushWrite _ _ _ | .pushsLoad _ _ | .pushsLoop _ _ _ _
  | .pushsWrite _ _ _ _ _ => []

/-- A ring buffer whose history is kept call by call. -/
structure Batched (α : Type u) [Zero α] where
  channel : Channel α
  /-- The elements of each write call that has succeeded. -/
  batches : List (List α)

namespace Batched

variable {α : Type u} [Zero α] [DecidableEq α] {size : Nat} {s : Batched α}

omit [DecidableEq α] in
def Initial (s : Batched α) : Prop := s.channel.Initial ∧ s.batches = []

/-- Either side makes its next access. -/
inductive Step (size : Nat) : Batched α → Batched α → Prop
  | producer (call : PushCall α) (s : Batched α) :
      Step size s ⟨s.channel.producerStep size call,
        s.batches ++ s.channel.producer.publishes⟩
  | consumer (s : Batched α) : Step size s ⟨s.channel.consumerStep size, s.batches⟩

/-- What is accepted is published in batches. -/
theorem producerStep_accepted (call : PushCall α) (s : Channel α) :
    (s.producerStep size call).accepted = s.accepted ++ s.producer.publishes.flatten := by
  unfold Channel.producerStep Producer.publishes
  cases s.producer with
  | idle => cases call <;> simp [Channel.beginCall]
  | pushCompare data writeIndex => simp [apply_ite Channel.accepted]
  | pushsLoop src writeIndex readIndex i => simp [apply_ite Channel.accepted]
  | pushWrite | pushStore | pushsLoad | pushsWrite | pushsStore => simp

/-- A load of the write index has seen whole batches. -/
structure Inv (size : Nat) (s : Batched α) : Prop where
  accepted : s.channel.accepted = s.batches.flatten
  snapshot : ∀ w, s.channel.consumer = .popCompare w → ∃ seen, seen <+: s.batches ∧
    w = seen.flatten.length % size ∧ s.channel.popped.length ≤ seen.flatten.length

omit [DecidableEq α] in
theorem Inv.of_initial (h : s.Initial) : s.Inv size := by
  obtain ⟨⟨ring, hchannel⟩, hbatches⟩ := h
  exact {
    accepted := by rw [hchannel, hbatches]; rfl
    snapshot := by simp [hchannel] }

theorem Inv.step (hchannel : s.channel.Inv size) (h : s.Inv size) {t : Batched α}
    (hstep : Step size s t) : t.Inv size := by
  cases hstep with
  | producer call =>
      obtain ⟨hconsumer, hpopped⟩ := Channel.producerStep_consumer size call s.channel
      exact {
        accepted := by
          dsimp only
          rw [producerStep_accepted, h.accepted, List.flatten_append]
        snapshot := by
          intro w hw
          obtain ⟨seen, hseen, hindex, hle⟩ := h.snapshot w (hconsumer ▸ hw)
          exact ⟨seen, hseen.trans (List.prefix_append _ _), hindex, hpopped ▸ hle⟩ }
  | consumer =>
      exact {
        accepted := by
          dsimp only
          rw [(Channel.consumerStep_producer size s.channel).2, h.accepted]
        snapshot := by
          intro w hw
          cases hpc : s.channel.consumer with
          | idle =>
              simp only [Channel.consumerStep, hpc, Consumer.popCompare.injEq] at hw ⊢
              have hindex := hchannel.writeIndex
              have hle := hchannel.popped_le
              rw [h.accepted] at hindex hle
              exact ⟨s.batches, List.prefix_refl _, hw ▸ hindex, hle⟩
          | popCompare writeIndex =>
              simp only [Channel.consumerStep, hpc] at hw
              split at hw <;> simp at hw
          | popRead readIndex => simp [Channel.consumerStep, hpc] at hw
          | popStore readIndex data => simp [Channel.consumerStep, hpc] at hw }

theorem inv_of_reachable (hsize : 0 < size) (hlt : size < 2 ^ 32)
    (h : Reachable Initial (Step size) s) : s.channel.Inv size ∧ s.Inv size := by
  refine @Reachable.invariant _ _ _ (fun s : Batched α => s.channel.Inv size ∧ s.Inv size)
    (fun _ hs => ⟨Channel.Inv.of_initial hsize hs.1, Inv.of_initial hs⟩) ?_ s h
  intro s t ⟨hchannel, hinv⟩ hstep
  refine ⟨?_, hinv.step hchannel hstep⟩
  cases hstep with
  | producer call => exact hchannel.producerStep hsize hlt call
  | consumer => exact hchannel.consumerStep hsize hlt

/-- A run of the ring buffer, with the batches kept. -/
theorem exists_run {channel : Channel α}
    (h : Relation.ReflTransGen (Channel.Step size) s.channel channel) :
    ∃ t, Relation.ReflTransGen (Step size) s t ∧ t.channel = channel := by
  induction h with
  | refl => exact ⟨s, .refl, rfl⟩
  | tail _ hstep ih =>
      obtain ⟨t, hrun, rfl⟩ := ih
      cases hstep with
      | producer call => exact ⟨_, hrun.tail (.producer call t), rfl⟩
      | consumer => exact ⟨_, hrun.tail (.consumer t), rfl⟩

end Batched

/-- `pushs()` is all or nothing, for the caller and for a consumer in between. -/
theorem pushs_all_or_nothing {α : Type u} [Zero α] [DecidableEq α] {size : Nat}
    (hsize : 1 ≤ size) (hlt : size < 2 ^ 32) {s : Batched α}
    (h : Reachable Batched.Initial (Batched.Step size) s) :
    (∀ src : Source α,
      let q := s.channel.held
      let rb := s.channel.ring
      let answer := rb.pushs size src
      (answer.1 = true ↔ src.values.length ≤ size - 1 - q.length) ∧
      (answer.1 = true → answer = rb.pushEach size src.values ∧
        answer.2.Represents size (q ++ src.values)) ∧
      (answer.1 = false → answer.2.Represents size q ∧ ∀ cs,
        (callAll (RingBuffer.call size) answer.2 cs).1 =
          (callAll (RingBuffer.call size) rb cs).1)) ∧
    (∀ (rb : RingBuffer α) text nonzero,
      rb.pushs size (.text text nonzero) = rb.pushs size (.block text)) ∧
    (s.channel.popped ++ s.channel.ring.visible size s.channel.ring.writeIndex =
        s.batches.flatten ∧
      ∀ writeIndex, s.channel.consumer = .popCompare writeIndex → ∃ seen, seen <+: s.batches ∧
        s.channel.popped ++ s.channel.ring.visible size writeIndex = seen.flatten) := by
  obtain ⟨hchannel, hinv⟩ := Batched.inv_of_reachable hsize hlt h
  refine ⟨fun src => ?_, fun rb text nonzero => ?_, ?_, fun writeIndex hload => ?_⟩
  · have hheld := hchannel.represents hsize
    have hroom := hheld.room
    have hwrites := hheld.pushs hlt src
    refine ⟨?_, fun hok => ⟨RingBuffer.pushs_eq_pushEach hok, hwrites.taken hok⟩,
      fun hfail => ⟨hwrites.refused hfail, fun cs => ?_⟩⟩
    · rw [hwrites.taken_iff]
      omega
    · exact (hwrites.refused hfail).answers_eq hlt hheld cs
  · rw [RingBuffer.pushs_eq, RingBuffer.pushs_eq]
    rfl
  · rw [hchannel.writeIndex, ← hinv.accepted]
    exact hchannel.visible_eq (List.prefix_refl _) hchannel.popped_le
  · obtain ⟨seen, hseen, rfl, hle⟩ := hinv.snapshot writeIndex hload
    refine ⟨seen, hseen, hchannel.visible_eq ?_ hle⟩
    obtain ⟨rest, hrest⟩ := hseen
    rw [hinv.accepted, ← hrest, List.flatten_append]
    exact List.prefix_append _ _

namespace BatchTest

def start : Batched Nat := ⟨⟨⟨0, 0, fun _ => 0⟩, .idle, .idle, [], []⟩, []⟩

/-- Two values are held and `pop()` has loaded the write index when a third one is pushed. -/
def loaded : Channel Nat :=
  ((start.channel.atomicPushs 5 (.block [7, 8])).consumerStep 5).atomicPushs 5 (.block [9])

theorem loaded_eq : loaded.held = [7, 8, 9] ∧ loaded.consumer = .popCompare 2 ∧
    loaded.popped ++ loaded.ring.visible 5 loaded.ring.writeIndex = [7, 8, 9] ∧
    loaded.popped ++ loaded.ring.visible 5 2 = [7, 8] := by
  simp only [loaded, Channel.atomicPushs, RingBuffer.pushs_eq]
  exact ⟨rfl, rfl, rfl, rfl⟩

/-- One slot is left. -/
theorem pushs_all_or_nothing_one_slot :
    ∃ s : Batched Nat, s.channel = loaded ∧
      (loaded.ring.pushs 5 (.block [10])).1 = true ∧
      (loaded.ring.pushs 5 (.block [10, 11])).1 ≠ true ∧
      s.batches.flatten = [7, 8, 9] ∧
      ∃ seen, seen <+: s.batches ∧ seen.flatten = [7, 8] := by
  have hinit : start.Initial := ⟨⟨start.channel.ring, rfl⟩, rfl⟩
  have hfirst := @Channel.atomicPushs_run Nat _ 5 start.channel _ rfl (.block [7, 8])
  have hload := hfirst.tail (.consumer _)
  have hloaded : Relation.ReflTransGen (Channel.Step 5) start.channel loaded :=
    hload.trans (Channel.atomicPushs_run rfl (.block [9]))
  obtain ⟨s, hrun, hs⟩ := Batched.exists_run hloaded
  have hreachable := (Reachable.start hinit).run hrun
  obtain ⟨hall, -, hbatches, hseen⟩ :=
    pushs_all_or_nothing (by decide) (by decide) hreachable
  rw [hs] at hall hbatches hseen
  obtain ⟨hheld, hconsumer, hpublished, hvisible⟩ := loaded_eq
  rw [hpublished] at hbatches
  obtain ⟨seen, hprefix, hflatten⟩ := hseen 2 hconsumer
  rw [hvisible] at hflatten
  simp only [hheld] at hall
  refine ⟨s, hs, (hall (.block [10])).1.mpr (by decide), fun htrue => ?_, hbatches.symm, seen,
    hprefix, hflatten.symm⟩
  exact absurd ((hall (.block [10, 11])).1.mp htrue) (by decide)

end BatchTest

end OpenMptl
