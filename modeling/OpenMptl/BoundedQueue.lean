/-
A first-in first-out queue with a bounded number of places.  A batch of elements
is taken as a whole or not at all.
-/
import OpenMptl.CallSequence

namespace OpenMptl

universe u

/-- A queue that never holds more than `capacity` elements. -/
structure BoundedQueue (α : Type u) (capacity : Nat) where
  elems : List α
  length_le : elems.length ≤ capacity

namespace BoundedQueue

variable {α : Type u} {capacity : Nat}

def empty : BoundedQueue α capacity := ⟨[], Nat.zero_le _⟩

/-- The number of free places. -/
def room (q : BoundedQueue α capacity) : Nat := capacity - q.elems.length

/-- All elements of the batch are appended, or none. -/
def offer (q : BoundedQueue α capacity) (xs : List α) : Bool × BoundedQueue α capacity :=
  if h : xs.length ≤ q.room then
    (true, ⟨q.elems ++ xs, by
      have hle := q.length_le
      rw [room] at h
      rw [List.length_append]
      omega⟩)
  else (false, q)

def poll (q : BoundedQueue α capacity) : Option α × BoundedQueue α capacity :=
  match q with
  | ⟨[], h⟩ => (none, ⟨[], h⟩)
  | ⟨x :: xs, h⟩ => (some x, ⟨xs, Nat.le_of_succ_le h⟩)

theorem offer_of_le {q : BoundedQueue α capacity} {xs : List α} (h : xs.length ≤ q.room) :
    (q.offer xs).1 = true ∧ (q.offer xs).2.elems = q.elems ++ xs := by
  simp [offer, h]

theorem offer_of_lt {q : BoundedQueue α capacity} {xs : List α} (h : q.room < xs.length) :
    q.offer xs = (false, q) := by
  simp [offer, Nat.not_le.mpr h]

/-- What a user of the queue may call. -/
inductive Call (α : Type u)
  | offer (xs : List α)
  | poll

/-- What the calls return. -/
inductive Answer (α : Type u)
  | offered (ok : Bool)
  | polled (x : Option α)

def call (q : BoundedQueue α capacity) : Call α → Answer α × BoundedQueue α capacity
  | .offer xs => (.offered (q.offer xs).1, (q.offer xs).2)
  | .poll => (.polled q.poll.1, q.poll.2)

end BoundedQueue

end OpenMptl
