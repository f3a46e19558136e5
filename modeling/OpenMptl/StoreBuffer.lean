/-
A memory that remembers where it has been stored to, so that what a routine
writes is a set of positions.  Text that is produced from its end is a list of
characters stored downwards.
-/
import Mathlib.Data.Set.Insert
import Mathlib.Data.List.Basic

namespace OpenMptl

universe u v

/-- The contents, and the positions of all stores so far. -/
structure Buffer (ι : Type u) (α : Type v) where
  cells : ι → α
  stored : List ι

namespace Buffer

variable {ι : Type u} {α : Type v}

def fresh (cells : ι → α) : Buffer ι α := ⟨cells, []⟩

def store [DecidableEq ι] (b : Buffer ι α) (i : ι) (x : α) : Buffer ι α :=
  ⟨fun j => if j = i then x else b.cells j, i :: b.stored⟩

/-- Exactly the positions of the set have been stored to. -/
structure Writes (b b' : Buffer ι α) (s : Set ι) : Prop where
  stored : ∀ i, i ∈ b'.stored ↔ i ∈ b.stored ∨ i ∈ s
  frame : ∀ i, i ∉ s → b'.cells i = b.cells i

section Store

variable [DecidableEq ι]

@[simp] theorem store_cells_self (b : Buffer ι α) (i : ι) (x : α) :
    (b.store i x).cells i = x := if_pos rfl

theorem store_cells_ne {i j : ι} (h : j ≠ i) (b : Buffer ι α) (x : α) :
    (b.store i x).cells j = b.cells j := if_neg h

theorem writes_store (b : Buffer ι α) (i : ι) (x : α) : b.Writes (b.store i x) {i} where
  stored j := by
    rw [store, List.mem_cons, or_comm]
    rfl
  frame j hj := store_cells_ne hj b x

end Store

section Writes

variable {b b' b'' : Buffer ι α} {s s' : Set ι}

theorem Writes.refl (b : Buffer ι α) : b.Writes b ∅ where
  stored _ := by simp
  frame _ _ := rfl

theorem Writes.trans (h : b.Writes b' s) (h' : b'.Writes b'' s') :
    b.Writes b'' (s ∪ s') where
  stored i := by rw [h'.stored, h.stored, or_assoc, Set.mem_union]
  frame i hi := by
    rw [Set.mem_union, not_or] at hi
    rw [h'.frame i hi.2, h.frame i hi.1]

/-- The same positions, described in another way. -/
theorem Writes.congr (h : b.Writes b' s) (hs : ∀ i, i ∈ s' ↔ i ∈ s) : b.Writes b' s' where
  stored i := by rw [h.stored, hs]
  frame i hi := h.frame i (mt (hs i).mpr hi)

theorem Writes.nothing (b : Buffer ι α) (h : ∀ i, i ∉ s) : b.Writes b s :=
  (Writes.refl b).congr fun i => iff_of_false (h i) (Set.notMem_empty i)

/-- A routine that starts on a fresh memory stores to the positions of the set. -/
theorem Writes.mem_stored {cells : ι → α} (h : (fresh cells).Writes b s) (i : ι) :
    i ∈ b.stored ↔ i ∈ s := by
  rw [h.stored]
  simp [fresh]

end Writes

section Downwards

variable (buf : Int)

/-- The first `n` characters from a start address on. -/
def text (b : Buffer Int α) (n : Nat) : List α :=
  (List.range n).map fun i : Nat => b.cells (buf + i)

/-- Characters stored below position `n`, the first one highest. -/
def storeDown (b : Buffer Int α) : Nat → List α → Buffer Int α
  | n + 1, x :: xs => storeDown (b.store (buf + n) x) n xs
  | _, _ => b

variable {buf}

@[simp] theorem storeDown_nil (b : Buffer Int α) (n : Nat) : b.storeDown buf n [] = b := by
  cases n <;> rfl

theorem storeDown_append {b : Buffer Int α} {n : Nat} {xs : List α} (h : xs.length ≤ n)
    (ys : List α) :
    b.storeDown buf n (xs ++ ys) =
      (b.storeDown buf n xs).storeDown buf (n - xs.length) ys := by
  induction xs generalizing b n with
  | nil => simp
  | cons x xs ih =>
      cases n with
      | zero => simp at h
      | succ n =>
          rw [List.cons_append, storeDown, storeDown, ih (Nat.le_of_succ_le_succ h),
            List.length_cons, Nat.add_sub_add_right]

theorem writes_storeDown {b : Buffer Int α} {n : Nat} {xs : List α} (h : xs.length = n) :
    b.Writes (b.storeDown buf n xs) { i | buf ≤ i ∧ i < buf + n } := by
  induction xs generalizing b n with
  | nil =>
      subst h
      rw [storeDown_nil]
      exact Writes.nothing b fun i => by simp
  | cons x xs ih =>
      subst h
      have hrest := (writes_store b (buf + xs.length) x).trans (@ih _ xs.length rfl)
      refine hrest.congr fun i => ?_
      simp only [Set.mem_ofPred_eq, List.length_cons, Set.mem_union, Set.mem_singleton_iff]
      omega

theorem text_congr {b b' : Buffer Int α} {n : Nat}
    (h : ∀ i, buf ≤ i → i < buf + n → b'.cells i = b.cells i) :
    b'.text buf n = b.text buf n := by
  apply List.map_congr_left
  intro i hi
  have hlt := List.mem_range.mp hi
  exact h _ (by omega) (by omega)

theorem text_succ (b : Buffer Int α) (n : Nat) :
    b.text buf (n + 1) = b.text buf n ++ [b.cells (buf + n)] := by
  simp [text, List.range_succ]

/-- Characters stored downwards read backwards. -/
theorem text_storeDown {b : Buffer Int α} {n : Nat} {xs : List α} (h : xs.length = n) :
    (b.storeDown buf n xs).text buf n = xs.reverse := by
  induction xs generalizing b n with
  | nil =>
      subst h
      rfl
  | cons x xs ih =>
      subst h
      have hlast : ((b.store (buf + xs.length) x).storeDown buf xs.length xs).cells
          (buf + xs.length) = x := by
        rw [(writes_storeDown rfl).frame _ (by simp), store_cells_self]
      rw [List.length_cons, storeDown, text_succ, ih rfl, hlast, List.reverse_cons]

theorem text_succ_start (b : Buffer Int α) (n : Nat) :
    b.text buf (n + 1) = b.cells buf :: b.text (buf + 1) n := by
  have hstep : ∀ i : Nat, buf + ((i + 1 : Nat) : Int) = buf + 1 + i := by
    intro i
    omega
  simp only [text, List.range_succ_eq_map, List.map_cons, List.map_map, Function.comp_def,
    Nat.succ_eq_add_one, hstep, Int.natCast_zero, Int.add_zero]

theorem text_store_start (b : Buffer Int α) (n : Nat) (x : α) :
    (b.store buf x).text buf (n + 1) = x :: (b.text buf (n + 1)).tail := by
  have hrest : (b.store buf x).text (buf + 1) n = b.text (buf + 1) n :=
    text_congr fun i hlow _ => store_cells_ne (by omega) b x
  rw [text_succ_start, text_succ_start, List.tail_cons, store_cells_self, hrest]

end Downwards

section Upwards

/-- Characters stored from a position on. -/
def storeUp (b : Buffer Nat α) (dst : Nat) : List α → Buffer Nat α
  | [] => b
  | x :: xs => storeUp (b.store dst x) (dst + 1) xs

theorem writes_storeUp (b : Buffer Nat α) (dst : Nat) (xs : List α) :
    b.Writes (b.storeUp dst xs) { i | dst ≤ i ∧ i < dst + xs.length } := by
  induction xs generalizing b dst with
  | nil => exact Writes.nothing b fun i => by simp
  | cons x xs ih =>
      have hrest := (writes_store b dst x).trans (ih (b.store dst x) (dst + 1))
      refine hrest.congr fun i => ?_
      simp only [Set.mem_ofPred_eq, List.length_cons, Set.mem_union, Set.mem_singleton_iff]
      omega

theorem cells_storeUp (b : Buffer Nat α) (dst : Nat) (xs : List α) (j : Nat) (hj : j < xs.length) :
    (b.storeUp dst xs).cells (dst + j) = xs[j] := by
  induction xs generalizing b dst j with
  | nil => cases hj
  | cons x xs ih =>
      rw [storeUp]
      cases j with
      | zero =>
          rw [(writes_storeUp (b.store dst x) (dst + 1) xs).frame _ (by simp)]
          exact store_cells_self b dst x
      | succ j =>
          have hnext := ih (b.store dst x) (dst + 1) j (Nat.lt_of_succ_lt_succ hj)
          rwa [Nat.add_assoc, Nat.add_comm 1 j] at hnext

/-- The same from an address on. -/
def storeFrom (b : Buffer Int α) (dst : Int) : List α → Buffer Int α
  | [] => b
  | x :: xs => storeFrom (b.store dst x) (dst + 1) xs

theorem writes_storeFrom (b : Buffer Int α) (dst : Int) (xs : List α) :
    b.Writes (b.storeFrom dst xs) { i | dst ≤ i ∧ i < dst + xs.length } := by
  induction xs generalizing b dst with
  | nil => exact Writes.nothing b fun i => by simp
  | cons x xs ih =>
      have hrest := (writes_store b dst x).trans (ih (b.store dst x) (dst + 1))
      refine hrest.congr fun i => ?_
      simp only [Set.mem_ofPred_eq, List.length_cons, Set.mem_union, Set.mem_singleton_iff]
      omega

theorem storeFrom_append (b : Buffer Int α) (dst : Int) (xs ys : List α) :
    b.storeFrom dst (xs ++ ys) = (b.storeFrom dst xs).storeFrom (dst + xs.length) ys := by
  induction xs generalizing b dst with
  | nil => simp [storeFrom]
  | cons x xs ih =>
      have hlength : dst + ((x :: xs).length : Int) = dst + 1 + xs.length := by
        rw [List.length_cons]
        omega
      rw [List.cons_append, storeFrom, storeFrom, ih, hlength]

theorem text_storeFrom (b : Buffer Int α) (dst : Int) (xs : List α) :
    (b.storeFrom dst xs).text dst xs.length = xs := by
  induction xs generalizing b dst with
  | nil => rfl
  | cons x xs ih =>
      rw [List.length_cons, text_succ_start, storeFrom, ih,
        (writes_storeFrom (b.store dst x) (dst + 1) xs).frame dst
          (fun h => absurd h.1 (by omega)), store_cells_self]

theorem text_add (b : Buffer Int α) (buf : Int) (m n : Nat) :
    b.text buf (m + n) = b.text buf m ++ b.text (buf + m) n := by
  induction n with
  | zero => simp [text]
  | succ n ih =>
      have hlast : buf + ((m + n : Nat) : Int) = buf + m + n := by omega
      rw [← Nat.add_assoc, text_succ, ih, text_succ, List.append_assoc, hlast]

theorem take_text (b : Buffer Int α) (buf : Int) {m n : Nat} (h : m ≤ n) :
    (b.text buf n).take m = b.text buf m := by
  obtain ⟨k, rfl⟩ := Nat.exists_eq_add_of_le h
  have hlength : (b.text buf m).length = m := by simp [text]
  rw [text_add, List.take_left' hlength]

end Upwards

end Buffer

end OpenMptl
