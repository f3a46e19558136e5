/-
Numbers written as digits, most significant first: the shortest digit string of
a value, its lowest digits, and text over an alphabet that can be read back.
-/
import Mathlib.Data.Nat.Digits.Lemmas

namespace OpenMptl

universe u

namespace Numeral

/-- The number that a list of digits denotes. -/
def value (b : Nat) (ds : List Nat) : Nat := Nat.ofDigits b ds.reverse

/-- The digits of a value without leading zeros; zero has one digit. -/
def shortest (b v : Nat) : List Nat := if v = 0 then [0] else (Nat.digits b v).reverse

/-- The `k` lowest digits of a value. -/
def lowDigits (b : Nat) : Nat → Nat → List Nat
  | 0, _ => []
  | k + 1, v => v / b ^ k % b :: lowDigits b k v

variable {b : Nat}

theorem value_cons (d : Nat) (ds : List Nat) :
    value b (d :: ds) = value b ds + b ^ ds.length * d := by
  simp [value, Nat.ofDigits_append]

theorem shortest_ne_nil (b v : Nat) : shortest b v ≠ [] := by
  unfold shortest
  split
  · exact List.cons_ne_nil _ _
  · rename_i hv
    simpa [Nat.digits_eq_nil_iff_eq_zero] using hv

theorem lt_of_mem_shortest (hb : 1 < b) {v d : Nat} (hd : d ∈ shortest b v) : d < b := by
  unfold shortest at hd
  split at hd
  · rw [List.mem_singleton.mp hd]
    omega
  · exact Nat.digits_lt_base hb (List.mem_reverse.mp hd)

theorem value_shortest (b v : Nat) : value b (shortest b v) = v := by
  unfold value shortest
  split
  · simp_all
  · rw [List.reverse_reverse, Nat.ofDigits_digits]

/-- How many digits a value needs. -/
theorem length_shortest_le_iff (hb : 1 < b) {v k : Nat} (hk : 0 < k) :
    (shortest b v).length ≤ k ↔ v < b ^ k := by
  unfold shortest
  split
  · rename_i hv
    have hpow : 0 < b ^ k := Nat.pow_pos (Nat.zero_lt_of_lt hb)
    simp only [List.length_singleton, hv, hpow, iff_true]
    exact hk
  · rw [List.length_reverse, Nat.digits_length_le_iff hb]

@[simp] theorem length_lowDigits (b k v : Nat) : (lowDigits b k v).length = k := by
  induction k with
  | zero => rfl
  | succ k ih => rw [lowDigits, List.length_cons, ih]

theorem lt_of_mem_lowDigits (hb : 0 < b) {k v d : Nat} (hd : d ∈ lowDigits b k v) : d < b := by
  induction k with
  | zero => cases hd
  | succ k ih =>
      rcases List.mem_cons.mp hd with rfl | hd
      · exact Nat.mod_lt _ hb
      · exact ih hd

theorem value_lowDigits (b k v : Nat) : value b (lowDigits b k v) = v % b ^ k := by
  induction k with
  | zero => rw [Nat.pow_zero, Nat.mod_one]; rfl
  | succ k ih => rw [lowDigits, value_cons, ih, length_lowDigits, Nat.mod_pow_succ]

/-- Digit strings of one length are told apart by their values. -/
theorem eq_of_value_eq (hb : 1 < b) {xs ys : List Nat} (hlength : xs.length = ys.length)
    (hxs : ∀ d ∈ xs, d < b) (hys : ∀ d ∈ ys, d < b) (h : value b xs = value b ys) :
    xs = ys := by
  apply List.reverse_injective
  refine Nat.ofDigits_inj_of_len_eq hb (by simpa using hlength) ?_ ?_ h
  · exact fun d hd => hxs d (List.mem_reverse.mp hd)
  · exact fun d hd => hys d (List.mem_reverse.mp hd)

theorem value_replicate_append (k : Nat) (ds : List Nat) :
    value b (List.replicate k 0 ++ ds) = value b ds := by
  induction k with
  | zero => rfl
  | succ k ih => rw [List.replicate_succ, List.cons_append, value_cons, ih, Nat.mul_zero,
      Nat.add_zero]

/-- Padding the shortest string with zeros gives the lowest digits. -/
theorem replicate_append_shortest (hb : 1 < b) {v k : Nat}
    (hk : (shortest b v).length ≤ k) :
    List.replicate (k - (shortest b v).length) 0 ++ shortest b v = lowDigits b k v := by
  have hpos : 0 < k := (List.length_pos_iff.mpr (shortest_ne_nil b v)).trans_le hk
  have hlt := (length_shortest_le_iff hb hpos).mp hk
  refine eq_of_value_eq hb ?_ ?_ ?_ ?_
  · rw [List.length_append, List.length_replicate, length_lowDigits, Nat.sub_add_cancel hk]
  · intro d hd
    rcases List.mem_append.mp hd with hzero | hd
    · rw [List.eq_of_mem_replicate hzero]
      omega
    · exact lt_of_mem_shortest hb hd
  · exact fun d hd => lt_of_mem_lowDigits (Nat.zero_lt_of_lt hb) hd
  · rw [value_replicate_append, value_shortest, value_lowDigits, Nat.mod_eq_of_lt hlt]

/-- A text in a field of `k` characters: padded on the left when it fits, else the
end of it behind a mark. -/
def rightAligned {α : Type u} (padding mark : α) (k : Nat) (text : List α) : List α :=
  if text.length ≤ k then List.replicate (k - text.length) padding ++ text
  else mark :: text.drop (text.length - (k - 1))

/-- Characters for the digits of a base, and how to read them. -/
structure Alphabet (b : Nat) (α : Type u) where
  digit : Nat → α
  digitValue : α → Option Nat
  digitValue_digit : ∀ d, d < b → digitValue (digit d) = some d

namespace Alphabet

variable {α : Type u} (A : Alphabet b α)

def write (ds : List Nat) : List α := ds.map A.digit

/-- The number that a text denotes, when all its characters are digits. -/
def read (text : List α) : Option Nat := (text.mapM A.digitValue).map (value b)

theorem mapM_write {ds : List Nat} (hds : ∀ d ∈ ds, d < b) :
    (A.write ds).mapM A.digitValue = some ds := by
  induction ds with
  | nil => rfl
  | cons d ds ih =>
      have hd := A.digitValue_digit d (hds d List.mem_cons_self)
      have hrest := ih fun e he => hds e (List.mem_cons_of_mem d he)
      rw [write, List.map_cons, List.mapM_cons, hd]
      change ((A.write ds).mapM A.digitValue >>= fun es => some (d :: es)) = _
      rw [hrest]
      rfl

theorem read_write {ds : List Nat} (hds : ∀ d ∈ ds, d < b) :
    A.read (A.write ds) = some (value b ds) := by
  rw [read, A.mapM_write hds, Option.map_some]

/-- A text with a character that is no digit denotes nothing. -/
theorem read_cons_eq_none {c : α} (hc : A.digitValue c = none) (text : List α) :
    A.read (c :: text) = none := by
  rw [read, List.mapM_cons, hc]
  rfl

end Alphabet

end Numeral

end OpenMptl
