/-
A counter shown by two registers that are read one after the other.  The low
register holds `base` values, the high register `range`; the counter may move
between the two reads, and then the halves may belong to different values.
-/
import Mathlib.Data.Nat.ModEq

namespace OpenMptl

namespace SplitCounter

variable (base range : Nat)

def low (k : Nat) : Nat := k % base

def high (k : Nat) : Nat := k / base % range

/-- The value of a high and a low half. -/
def join (h l : Nat) : Nat := h * base + l

/-- The low half did not fall between the reads, or the counter went round. -/
def NoCarry (first last : Nat) : Prop :=
  first % base ≤ last % base ∨ first / base + range ≤ last / base

/-- The value was shown by the counter at some moment of the interval. -/
def Held (first last value : Nat) : Prop :=
  ∃ k, first ≤ k ∧ k ≤ last ∧ value = k % (base * range)

variable {base range : Nat}

theorem join_high_low (k : Nat) :
    join base (high base range k) (low base k) = k % (base * range) := by
  unfold join high low
  rw [Nat.mod_mul, Nat.mul_comm (k / base % range), Nat.add_comm]

theorem join_div {h l : Nat} (hl : l < base) : join base h l / base = h := by
  unfold join
  rw [Nat.mul_comm, Nat.mul_add_div (Nat.zero_lt_of_lt hl), Nat.div_eq_of_lt hl,
    Nat.add_zero]

theorem join_mod {h l : Nat} (hl : l < base) : join base h l % base = l := by
  unfold join
  rw [Nat.mul_add_mod', Nat.mod_eq_of_lt hl]

theorem join_div_mod (k : Nat) : join base (k / base) (k % base) = k :=
  Nat.div_add_mod' k base

/-- Joined values are ordered by the high half first. -/
theorem join_le_join_iff {h h' l l' : Nat} (hl : l < base) (hl' : l' < base) :
    join base h l ≤ join base h' l' ↔ h < h' ∨ h = h' ∧ l ≤ l' := by
  unfold join
  rcases Nat.lt_trichotomy h h' with hlt | rfl | hgt
  · have hmul := Nat.mul_le_mul_right base (Nat.succ_le_of_lt hlt)
    rw [Nat.succ_mul] at hmul
    omega
  · omega
  · have hmul := Nat.mul_le_mul_right base (Nat.succ_le_of_lt hgt)
    rw [Nat.succ_mul] at hmul
    omega

/-- A joined value was held when some moment shows its low half and, up to whole
rounds, its high half. -/
theorem held_join_iff {first last h l : Nat} (hl : l < base) :
    Held base range first last (join base (h % range) l) ↔
      ∃ r, r % range = h % range ∧ first ≤ join base r l ∧ join base r l ≤ last := by
  constructor
  · rintro ⟨k, hfirst, hlast, heq⟩
    have hk := Nat.mod_lt k (Nat.zero_lt_of_lt hl)
    rw [← join_high_low] at heq
    have hhigh : h % range = high base range k := by
      rw [← join_div (h := h % range) hl, heq]
      exact join_div hk
    have hlow : l = k % base := by
      rw [← join_mod (h := h % range) hl, heq]
      exact join_mod hk
    refine ⟨k / base, hhigh.symm, ?_⟩
    rw [hlow, join_div_mod]
    exact ⟨hfirst, hlast⟩
  · rintro ⟨r, hr, hfirst, hlast⟩
    refine ⟨join base r l, hfirst, hlast, ?_⟩
    rw [← join_high_low, high, low, join_div hl, join_mod hl, hr]

/-- A later number of the same residue is at least a round further. -/
theorem add_le_of_mod_eq {p r : Nat} (hmod : p % range = r % range) (hlt : p < r) :
    p + range ≤ r := by
  have hdvd : range ∣ r - p := (Nat.modEq_iff_dvd' hlt.le).mp hmod
  have hle := Nat.le_of_dvd (by omega) hdvd
  omega

section Reads

variable {first last : Nat}

theorem first_le_join_iff {r l : Nat} (hl : l < base) :
    first ≤ join base r l ↔
      first / base < r ∨ first / base = r ∧ first % base ≤ l := by
  have hmod := Nat.mod_lt first (Nat.zero_lt_of_lt hl)
  rw [← join_le_join_iff hmod hl, join_div_mod]

theorem join_le_last_iff {r l : Nat} (hl : l < base) :
    join base r l ≤ last ↔ r < last / base ∨ r = last / base ∧ l ≤ last % base := by
  have hmod := Nat.mod_lt last (Nat.zero_lt_of_lt hl)
  rw [← join_le_join_iff hl hmod, join_div_mod]

/-- The same, half by half. -/
theorem held_join_iff_halves {h l : Nat} (hl : l < base) :
    Held base range first last (join base (h % range) l) ↔
      ∃ r, r % range = h % range ∧
        (first / base < r ∨ first / base = r ∧ first % base ≤ l) ∧
        (r < last / base ∨ r = last / base ∧ l ≤ last % base) := by
  simp only [held_join_iff hl, first_le_join_iff hl, join_le_last_iff hl]

/-- The high half is read first. -/
theorem held_highFirst_iff (hbase : 0 < base) (hrange : 0 < range) (hle : first ≤ last) :
    Held base range first last (join base (high base range first) (low base last)) ↔
      NoCarry base range first last := by
  have hdiv := Nat.div_le_div_right (c := base) hle
  rw [high, low, held_join_iff_halves (Nat.mod_lt last hbase), NoCarry]
  generalize first / base = p at hdiv ⊢
  generalize last / base = q at hdiv ⊢
  constructor
  · rintro ⟨r, hr, hfirst, hlast⟩
    rcases hfirst with hlt | ⟨rfl, hmod⟩
    · have hround := add_le_of_mod_eq hr.symm hlt
      omega
    · exact Or.inl hmod
  · rintro (hmod | hround)
    · exact ⟨p, rfl, by omega, by omega⟩
    · exact ⟨p + range, Nat.add_mod_right _ _, by omega, by omega⟩

/-- The low half is read first. -/
theorem held_lowFirst_iff (hbase : 0 < base) (hrange : 0 < range) (hle : first ≤ last) :
    Held base range first last (join base (high base range last) (low base first)) ↔
      NoCarry base range first last := by
  have hdiv := Nat.div_le_div_right (c := base) hle
  rw [high, low, held_join_iff_halves (Nat.mod_lt first hbase), NoCarry]
  generalize first / base = p at hdiv ⊢
  generalize last / base = q at hdiv ⊢
  constructor
  · rintro ⟨r, hr, hfirst, hlast⟩
    rcases hlast with hlt | ⟨rfl, hmod⟩
    · have hround := add_le_of_mod_eq hr hlt
      omega
    · exact Or.inl hmod
  · rintro (hmod | hround)
    · exact ⟨q, rfl, by omega, by omega⟩
    · refine ⟨q - range, ?_, by omega, by omega⟩
      rw [← Nat.add_mod_right, Nat.sub_add_cancel (by omega)]

end Reads

/-- Before the counter wraps, what was held lies in the interval itself. -/
theorem Held.between {first last value : Nat} (h : Held base range first last value)
    (hlast : last < base * range) : first ≤ value ∧ value ≤ last := by
  obtain ⟨k, hfirst, hle, rfl⟩ := h
  rw [Nat.mod_eq_of_lt (Nat.lt_of_le_of_lt hle hlast)]
  exact ⟨hfirst, hle⟩

end SplitCounter

end OpenMptl
