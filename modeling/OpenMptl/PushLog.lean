/-
What the pushes of a producer have found.  Each push looks at the read index once, and how
full the fifo is at that moment decides whether its values are taken; an observer of the
steps keeps that number, and what has become of the push.
-/
import OpenMptl.RingBufferSafety

namespace OpenMptl

universe u

def PushCall.values {α : Type u} [Zero α] : PushCall α → List α
  | .push data => [data]
  | .pushs src => src.values

namespace Producer

variable {α : Type u} [Zero α]

/-- The push under way. -/
def batch : Producer α → List (List α)
  | .idle => []
  | .pushCompare data _ | .pushWrite data _ _ | .pushStore data _ => [[data]]
  | .pushsLoad src _ | .pushsLoop src _ _ _ | .pushsWrite src _ _ _ _ | .pushsStore src _ =>
      [src.values]

/-- The next access loads the read index. -/
def loadsReadIndex : Producer α → Bool
  | .pushCompare _ _ | .pushsLoad _ _ => true
  | .idle | .pushWrite _ _ _ | .pushStore _ _ | .pushsLoop _ _ _ _ | .pushsWrite _ _ _ _ _
  | .pushsStore _ _ => false

end Producer

/-- A push that has ended: how many values were in the fifo when it loaded the read index,
and whether its own were taken. -/
structure PushAttempt (α : Type u) where
  values : List α
  queued : Nat
  taken : Bool

namespace PushAttempt

variable {α : Type u} (a : PushAttempt α)

/-- What the push has added to the accepted values. -/
def kept : List α := if a.taken then a.values else []

/-- The kept values are those of the pushes whose values were taken. -/
theorem flatMap_kept (attempts : List (PushAttempt α)) :
    attempts.flatMap kept = (attempts.filter taken).flatMap values := by
  induction attempts with
  | nil => rfl
  | cons a attempts ih =>
      rw [List.flatMap_cons, ih, kept]
      cases htaken : a.taken with
      | true => rw [List.filter_cons_of_pos htaken, List.flatMap_cons, if_pos rfl]
      | false =>
          rw [List.filter_cons_of_neg (by rw [htaken]; decide), if_neg (by decide),
            List.nil_append]

/-- The values were taken if and only if there was room for them; one slot of the ring
stays free. -/
def Fair (size : Nat) : Prop := a.taken = true ↔ a.queued + a.values.length < size

end PushAttempt

/-- `queued` is the number for the push under way. -/
structure PushLog (α : Type u) where
  queued : Nat
  ended : List (PushAttempt α)

namespace PushLog

variable {α : Type u} [Zero α]

def start : PushLog α := ⟨0, []⟩

/-- The number is taken again with each load of the read index. -/
def look (log : PushLog α) (s : Channel α) : Nat :=
  if s.producer.loadsReadIndex then s.accepted.length - s.popped.length else log.queued

variable {size : Nat} {log : PushLog α} {s t : Channel α}

theorem look_of_loads (h : s.producer.loadsReadIndex = true) :
    log.look s = s.accepted.length - s.popped.length := by
  rw [look, if_pos h]

theorem look_of_not_loads (h : s.producer.loadsReadIndex = false) :
    log.look s = log.queued := by
  rw [look, h]
  rfl

variable [DecidableEq α]

/-- The attempt that a step ends. -/
def outcome (queued : Nat) (s t : Channel α) : List (PushAttempt α) :=
  match s.producer.batch, t.producer with
  | [values], .idle => [⟨values, queued, decide (t.accepted = s.accepted ++ values)⟩]
  | _, _ => []

/-- What is known after a step. -/
def observe (log : PushLog α) (s t : Channel α) : PushLog α :=
  ⟨log.look s, log.ended ++ outcome (log.look s) s t⟩

/-- What the push under way knows of the room, with its local variables. -/
def Judged (size : Nat) (log : PushLog α) (s : Channel α) : Prop :=
  match s.producer with
  | .idle | .pushCompare _ _ | .pushsLoad _ _ => True
  | .pushWrite _ _ _ | .pushStore _ _ => log.queued + 1 < size
  | .pushsLoop src _ readIndex i =>
      i ≤ src.values.length ∧ log.queued ≤ s.accepted.length ∧
        readIndex = (s.accepted.length - log.queued) % size ∧ log.queued + i < size
  | .pushsWrite src _ readIndex i _ =>
      i < src.values.length ∧ log.queued ≤ s.accepted.length ∧
        readIndex = (s.accepted.length - log.queued) % size ∧ log.queued + i + 1 < size
  | .pushsStore src _ => log.queued + src.values.length < size

/-- A step of the producer within a push: the push goes on, or it ends as the room that it
has found demands. -/
structure Goes (size : Nat) (log : PushLog α) (s t : Channel α) : Prop where
  judged : (log.observe s t).Judged size t
  ends : (t.producer.batch = s.producer.batch ∧ t.accepted = s.accepted ∧
      (log.observe s t).ended = log.ended) ∨
    ∃ a : PushAttempt α, s.producer.batch = [a.values] ∧ t.producer.batch = [] ∧
      t.accepted = s.accepted ++ a.kept ∧ (log.observe s t).ended = log.ended ++ [a] ∧
      a.Fair size

theorem outcome_of_busy (queued : Nat) (h : t.producer ≠ .idle) : outcome queued s t = [] := by
  rw [outcome]
  split
  · next hidle => exact absurd hidle h
  · rfl

theorem outcome_of_idle (queued : Nat) (h : s.producer = .idle) : outcome queued s t = [] := by
  rw [outcome, h]
  rfl

/-- The push goes on. -/
theorem Goes.of_busy (hbatch : t.producer.batch = s.producer.batch)
    (haccepted : t.accepted = s.accepted) (hbusy : t.producer ≠ .idle)
    (hjudged : (log.observe s t).Judged size t) : log.Goes size s t :=
  ⟨hjudged, .inl ⟨hbatch, haccepted, by
    rw [observe, outcome_of_busy _ hbusy, List.append_nil]⟩⟩

/-- The push ends, with an attempt that tells so. -/
theorem Goes.of_ends {a : PushAttempt α} (hbatch : s.producer.batch = [a.values])
    (hidle : t.producer = .idle) (haccepted : t.accepted = s.accepted ++ a.kept)
    (hqueued : log.look s = a.queued)
    (htaken : a.taken = decide (t.accepted = s.accepted ++ a.values)) (hfair : a.Fair size) :
    log.Goes size s t := by
  obtain ⟨values, queued, taken⟩ := a
  have hnone : t.producer.batch = [] := by rw [hidle]; rfl
  refine ⟨by rw [Judged, hidle]; trivial, .inr ⟨_, hbatch, hnone, haccepted, ?_, hfair⟩⟩
  obtain rfl : log.look s = queued := hqueued
  obtain rfl : taken = decide (t.accepted = s.accepted ++ values) := htaken
  rw [observe, outcome, hbatch, hidle]

/-- The values are dropped. -/
theorem Goes.dropped {values : List α} (hbatch : s.producer.batch = [values])
    (hidle : t.producer = .idle) (haccepted : t.accepted = s.accepted) (hne : values ≠ [])
    (hroom : size ≤ log.look s + values.length) : log.Goes size s t := by
  refine Goes.of_ends (a := ⟨values, log.look s, false⟩) hbatch hidle ?_ rfl ?_ ?_
  · rw [haccepted]
    exact (List.append_nil _).symm
  · refine (decide_eq_false fun heq => hne ?_).symm
    rw [haccepted] at heq
    exact List.self_eq_append_right.mp heq
  · exact iff_of_false Bool.false_ne_true (Nat.not_lt.mpr hroom)

/-- The values are taken. -/
theorem Goes.taken {values : List α} (hbatch : s.producer.batch = [values])
    (hidle : t.producer = .idle) (haccepted : t.accepted = s.accepted ++ values)
    (hroom : log.look s + values.length < size) : log.Goes size s t :=
  Goes.of_ends (a := ⟨values, log.look s, true⟩) hbatch hidle haccepted rfl
    (decide_eq_true haccepted).symm (iff_of_true rfl hroom)

/-- A push that is under way goes on, or it ends. -/
theorem Judged.producerStep (hsize : 0 < size) (hlt : size < 2 ^ 32) (h : s.Inv size)
    (hjudged : log.Judged size s) (hbusy : s.producer ≠ .idle) (call : PushCall α) :
    log.Goes size s (s.producerStep size call) := by
  have hp := h.producer
  have hle := h.popped_le
  have hroom := h.room
  have hstream := s.length_stream
  have hincrement := RingBuffer.increment_mod hsize hlt
  have hqueued := @look_of_not_loads α _ log s
  have hloads := @look_of_loads α _ log s
  unfold Channel.producerStep
  cases hpc : s.producer with
  | idle => exact absurd hpc hbusy
  | pushCompare data writeIndex =>
      rw [hpc] at hp
      obtain rfl : writeIndex = s.accepted.length % size := hp
      simp only [hincrement, h.readIndex]
      split
      · next heq =>
          refine Goes.dropped (by rw [hpc]; rfl) rfl rfl (List.cons_ne_nil data []) ?_
          rw [hloads (by rw [hpc]; rfl), List.length_singleton]
          by_contra hfree
          exact slot_ne (b := s.accepted.length + 1) (by omega) (by omega) heq.symm
      · next hne =>
          refine Goes.of_busy (by rw [hpc]; rfl) rfl (by simp) ?_
          have hfree := @lt_round_of_slot_ne size s.popped.length _ (by omega) hne
          change log.look s + 1 < size
          rw [hloads (by rw [hpc]; rfl)]
          omega
  | pushWrite data writeIndex nextWriteIndex =>
      rw [Judged, hpc] at hjudged
      refine Goes.of_busy (by rw [hpc]; rfl) rfl (by simp) ?_
      change log.look s + 1 < size
      rw [hqueued (by rw [hpc]; rfl)]
      exact hjudged
  | pushStore data nextWriteIndex =>
      rw [Judged, hpc] at hjudged
      refine Goes.taken (by rw [hpc]; rfl) rfl rfl ?_
      rw [hqueued (by rw [hpc]; rfl)]
      exact hjudged
  | pushsLoad src writeIndex =>
      refine Goes.of_busy (by rw [hpc]; rfl) rfl (by simp) ?_
      change 0 ≤ _ ∧ log.look s ≤ _ ∧ _ = (_ - log.look s) % size ∧
        log.look s + 0 < size
      rw [hloads (by rw [hpc]; rfl), Nat.sub_sub_self hle]
      exact ⟨Nat.zero_le _, Nat.sub_le _ _, h.readIndex, by omega⟩
  | pushsLoop src writeIndex readIndex i =>
      rw [hpc] at hp
      rw [Judged, hpc] at hjudged
      obtain ⟨rfl, hi, -⟩ := hp
      obtain ⟨-, hqueuedLe, rfl, hfree⟩ := hjudged
      by_cases hmore : src.more i = true
      · have hlen := (src.more_iff i).mp hmore
        simp only [hmore, ↓reduceIte, hincrement]
        split
        · next heq =>
            refine Goes.dropped (by rw [hpc]; rfl) rfl rfl (List.ne_nil_of_length_pos (by omega)) ?_
            rw [hqueued (by rw [hpc]; rfl)]
            by_contra hroom
            exact slot_ne (b := s.accepted.length + i + 1) (by omega) (by omega) heq.symm
        · next hne =>
            refine Goes.of_busy (by rw [hpc]; rfl) rfl (by simp) ?_
            have hnext := @lt_round_of_slot_ne size (s.accepted.length - log.queued)
              (s.accepted.length + i + 1) (by omega) hne
            change _ ∧ log.look s ≤ _ ∧
              _ = (_ - log.look s) % size ∧ log.look s + i + 1 < size
            rw [hqueued (by rw [hpc]; rfl)]
            exact ⟨hlen, hqueuedLe, rfl, by omega⟩
      · have hend : i = src.values.length := by
          have hnot := mt (src.more_iff i).mpr hmore
          omega
        simp only [hmore, Bool.false_eq_true, ↓reduceIte]
        refine Goes.of_busy (by rw [hpc]; rfl) rfl (by simp) ?_
        change log.look s + src.values.length < size
        rw [hqueued (by rw [hpc]; rfl), ← hend]
        exact hfree
  | pushsWrite src writeIndex readIndex i nextWriteIndex =>
      rw [Judged, hpc] at hjudged
      obtain ⟨hi, hqueuedLe, hread, hfree⟩ := hjudged
      refine Goes.of_busy (by rw [hpc]; rfl) rfl (by simp) ?_
      change _ ∧ log.look s ≤ _ ∧ _ = (_ - log.look s) % size ∧
        log.look s + (i + 1) < size
      rw [hqueued (by rw [hpc]; rfl)]
      exact ⟨hi, hqueuedLe, hread, by omega⟩
  | pushsStore src writeIndex =>
      rw [Judged, hpc] at hjudged
      refine Goes.taken (by rw [hpc]; rfl) rfl rfl ?_
      rw [hqueued (by rw [hpc]; rfl)]
      exact hjudged

/-- A step that leaves the producer alone leaves its attempts alone. -/
theorem Judged.of_producer (hjudged : log.Judged size s) (hproducer : t.producer = s.producer)
    (haccepted : t.accepted = s.accepted) :
    (log.observe s t).Judged size t ∧ (log.observe s t).ended = log.ended := by
  by_cases hidle : s.producer = .idle
  · refine ⟨by rw [Judged, hproducer, hidle]; trivial, ?_⟩
    rw [observe, outcome_of_idle _ hidle, List.append_nil]
  · refine ⟨?_, by rw [observe, outcome_of_busy _ (hproducer ▸ hidle), List.append_nil]⟩
    cases hloads : s.producer.loadsReadIndex with
    | true =>
        rw [Judged, hproducer]
        cases hpc : s.producer with
        | pushCompare | pushsLoad => trivial
        | idle | pushWrite | pushStore | pushsLoop | pushsWrite | pushsStore =>
            rw [hpc] at hloads
            cases hloads
    | false =>
        rw [Judged, hproducer, haccepted, observe, look_of_not_loads hloads]
        exact hjudged

/-- A push starts. -/
theorem judged_beginCall (size : Nat) (log : PushLog α) (hidle : s.producer = .idle)
    (call : PushCall α) : (log.observe s (s.beginCall call)).Judged size (s.beginCall call) ∧
      (log.observe s (s.beginCall call)).ended = log.ended := by
  constructor
  · cases call <;> trivial
  · rw [observe, outcome_of_idle _ hidle, List.append_nil]

end PushLog

end OpenMptl
