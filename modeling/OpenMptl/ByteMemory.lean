/-
A byte-addressed memory with little-endian words, read as one set of bit
positions: position `8 * a + i` is bit `i` of the byte at `a`.  Loads, stores and
single-bit writes are then statements about positions.
-/
import OpenMptl.BitMask

namespace OpenMptl

/-- The content of every byte of the address space. -/
@[ext]
structure Memory where
  byte : Nat → Nat
  byte_lt : ∀ a, byte a < 2 ^ 8

namespace Memory

/-- The positions of all ones in memory. -/
def positions (m : Memory) : Set Nat := { p | (m.byte (p / 8)).testBit (p % 8) = true }

/-- The little-endian number in `n` bytes from `addr` on. -/
def loadBytes (m : Memory) (addr : Nat) : Nat → Nat
  | 0 => 0
  | n + 1 => m.byte addr ||| (loadBytes m (addr + 1) n <<< 8)

def storeBytes (m : Memory) (addr n v : Nat) : Memory where
  byte a := if addr ≤ a ∧ a < addr + n then v / 2 ^ (8 * (a - addr)) % 2 ^ 8 else m.byte a
  byte_lt a := by
    split
    · exact Nat.mod_lt _ (Nat.two_pow_pos 8)
    · exact m.byte_lt a

/-- Write one bit of the byte at `addr`. -/
def writeBit (m : Memory) (addr bit : Nat) (v : Bool) : Memory where
  byte a :=
    if a = addr then
      ((m.byte a &&& bitNot 8 (2 ^ bit)) ||| if v then 2 ^ bit else 0) % 2 ^ 8
    else m.byte a
  byte_lt a := by
    split
    · exact Nat.mod_lt _ (Nat.two_pow_pos 8)
    · exact m.byte_lt a

def readBit (m : Memory) (addr bit : Nat) : Bool := (m.byte addr).testBit bit

@[simp] theorem mem_positions (m : Memory) (p : Nat) :
    p ∈ m.positions ↔ (m.byte (p / 8)).testBit (p % 8) = true := Iff.rfl

/-- Memories with ones at the same positions are equal. -/
theorem ext_positions {m m' : Memory} (h : ∀ p, p ∈ m.positions ↔ p ∈ m'.positions) :
    m = m' := by
  ext a
  apply Nat.eq_of_testBit_eq
  intro i
  by_cases hi : i < 8
  · have hbit := h (8 * a + i)
    have hdiv : (8 * a + i) / 8 = a := by omega
    have hmod : (8 * a + i) % 8 = i := by omega
    simp only [mem_positions, hdiv, hmod] at hbit
    exact Bool.eq_iff_iff.mpr hbit
  · have hpow : 2 ^ 8 ≤ 2 ^ i := Nat.pow_le_pow_right Nat.two_pos (by omega)
    rw [Nat.testBit_lt_two_pow ((m.byte_lt a).trans_le hpow),
      Nat.testBit_lt_two_pow ((m'.byte_lt a).trans_le hpow)]

/-- Bit `i` of a word lies `i` positions after its first bit. -/
theorem mem_bits_loadBytes (m : Memory) (addr n i : Nat) :
    i ∈ bits (m.loadBytes addr n) ↔ i < 8 * n ∧ 8 * addr + i ∈ m.positions := by
  induction n generalizing addr i with
  | zero => simp [loadBytes]
  | succ n ih =>
      have hrest := ih (addr + 1) (i - 8)
      simp only [loadBytes, mem_bits, mem_positions, Nat.testBit_or, Nat.testBit_shiftLeft,
        Bool.or_eq_true, Bool.and_eq_true, decide_eq_true_eq] at hrest ⊢
      by_cases hi : i < 8
      · have hdiv : (8 * addr + i) / 8 = addr := by omega
        have hmod : (8 * addr + i) % 8 = i := by omega
        have hlt : i < 8 * (n + 1) := by omega
        simp [hdiv, hmod, hlt, hi]
      · have hpow : 2 ^ 8 ≤ 2 ^ i := Nat.pow_le_pow_right Nat.two_pos (by omega)
        have hfirst : (m.byte addr).testBit i = false :=
          Nat.testBit_lt_two_pow ((m.byte_lt addr).trans_le hpow)
        have hpos : 8 * (addr + 1) + (i - 8) = 8 * addr + i := by omega
        have hbound : i - 8 < 8 * n ↔ i < 8 * (n + 1) := by omega
        have hge : i ≥ 8 := by omega
        rw [hrest, hpos, hbound]
        simp [hfirst, hge]

theorem loadBytes_lt (m : Memory) (addr n : Nat) : m.loadBytes addr n < 2 ^ (8 * n) := by
  apply Nat.lt_pow_two_of_testBit
  intro i hi
  have hnot : i ∉ bits (m.loadBytes addr n) := fun hmem =>
    absurd ((m.mem_bits_loadBytes addr n i).mp hmem).1 (by omega)
  simpa using hnot

theorem mem_positions_storeBytes (m : Memory) (addr n v p : Nat) :
    p ∈ (m.storeBytes addr n v).positions ↔
      if 8 * addr ≤ p ∧ p < 8 * (addr + n) then p - 8 * addr ∈ bits v
      else p ∈ m.positions := by
  have hrange : (addr ≤ p / 8 ∧ p / 8 < addr + n) ↔
      (8 * addr ≤ p ∧ p < 8 * (addr + n)) := by omega
  by_cases h : 8 * addr ≤ p ∧ p < 8 * (addr + n)
  · have hindex : p % 8 + 8 * (p / 8 - addr) = p - 8 * addr := by omega
    have hbyte : p % 8 < 8 := Nat.mod_lt p (by omega)
    simp only [mem_positions, storeBytes, hrange, h, and_self, ↓reduceIte, mem_bits,
      Nat.testBit_mod_two_pow, Nat.testBit_div_two_pow, hindex, hbyte, decide_true,
      Bool.true_and]
  · simp only [mem_positions, storeBytes, hrange, h, ↓reduceIte]

theorem mem_positions_writeBit (m : Memory) (addr : Nat) {bit : Nat} (hbit : bit < 8)
    (v : Bool) (p : Nat) :
    p ∈ (m.writeBit addr bit v).positions ↔
      if p = 8 * addr + bit then v = true else p ∈ m.positions := by
  have hbyte : p % 8 < 8 := Nat.mod_lt p (by omega)
  by_cases haddr : p / 8 = addr
  · have hkept : p % 8 ∈ bits (m.byte (p / 8) &&& bitNot 8 (2 ^ bit)) ↔
        p ∈ m.positions ∧ p % 8 ≠ bit := by
      rw [bits_and_bitNot (m.byte_lt (p / 8))]
      simp
    have hadded : (if v = true then 2 ^ bit else 0).testBit (p % 8) = true ↔
        v = true ∧ p % 8 = bit := by
      cases v
      · simp
      · simp [Nat.testBit_two_pow, eq_comm]
    have hpos : p = 8 * addr + bit ↔ p % 8 = bit := by omega
    rw [mem_bits] at hkept
    simp only [mem_positions, writeBit, haddr, ↓reduceIte, Nat.testBit_mod_two_pow, hbyte,
      decide_true, Bool.true_and, Nat.testBit_or, Bool.or_eq_true, hadded, hpos] at hkept ⊢
    rw [hkept]
    by_cases hp : p % 8 = bit
    · simp [hp]
    · simp [hp]
  · have hne : p ≠ 8 * addr + bit := by omega
    simp only [mem_positions, writeBit, haddr, hne, ↓reduceIte]

theorem readBit_eq_true_iff (m : Memory) (addr : Nat) {bit : Nat} (hbit : bit < 8) :
    m.readBit addr bit = true ↔ 8 * addr + bit ∈ m.positions := by
  have hdiv : (8 * addr + bit) / 8 = addr := by omega
  have hmod : (8 * addr + bit) % 8 = bit := by omega
  simp only [readBit, mem_positions, hdiv, hmod]

end Memory

end OpenMptl
