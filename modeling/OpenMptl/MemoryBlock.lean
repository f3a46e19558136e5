/-
Blocks of bytes in a byte-addressed memory.  A block is copied upwards word by word,
also onto a block that begins below it; a block is cleared word by word.  Every byte
outside the block that is written stays what it was.
-/
import OpenMptl.ByteMemory

namespace OpenMptl

namespace Memory

variable (m : Memory)

/-- The bytes stand in memory from the address on. -/
def Holds (addr : Nat) (bytes : List UInt8) : Prop :=
  ∀ i (h : i < bytes.length), m.byte (addr + i) = bytes[i].toNat

/-- The words stand in memory from the address on. -/
def HoldsWords (addr : Nat) (words : List Nat) : Prop :=
  ∀ i (h : i < words.length), m.loadBytes (addr + 4 * i) 4 = words[i]

/-- The memories agree on the addresses from `lower` to below `upper`. -/
def AgreeOn (m' : Memory) (lower upper : Nat) : Prop :=
  ∀ a, lower ≤ a → a < upper → m'.byte a = m.byte a

/-- Copy a number of words, the lowest first. -/
def copyWords : Nat → Nat → Nat → Memory → Memory
  | 0, _, _, m => m
  | n + 1, dst, src, m => copyWords n (dst + 4) (src + 4) (m.storeBytes dst 4 (m.loadBytes src 4))

/-- Clear a number of words, the lowest first. -/
def clearWords : Nat → Nat → Memory → Memory
  | 0, _, m => m
  | n + 1, dst, m => clearWords n (dst + 4) (m.storeBytes dst 4 0)

variable {m}

theorem byte_loadBytes (m : Memory) (addr : Nat) {n i : Nat} (hi : i < n) :
    m.loadBytes addr n / 2 ^ (8 * i) % 2 ^ 8 = m.byte (addr + i) := by
  apply Nat.eq_of_testBit_eq
  intro j
  rw [Nat.testBit_mod_two_pow, Nat.testBit_div_two_pow]
  by_cases hj : j < 8
  · have hdiv : (8 * addr + (j + 8 * i)) / 8 = addr + i := by omega
    have hmod : (8 * addr + (j + 8 * i)) % 8 = j := by omega
    have hlt : j + 8 * i < 8 * n := by omega
    have hbit := m.mem_bits_loadBytes addr n (j + 8 * i)
    rw [mem_bits, mem_positions, hdiv, hmod, and_iff_right hlt] at hbit
    rw [decide_eq_true hj, Bool.true_and]
    exact Bool.eq_iff_iff.mpr hbit
  · have hpow : 2 ^ 8 ≤ 2 ^ j := Nat.pow_le_pow_right Nat.two_pos (by omega)
    rw [decide_eq_false hj, Bool.false_and,
      Nat.testBit_lt_two_pow ((m.byte_lt (addr + i)).trans_le hpow)]

/-- A word is what its bytes are. -/
theorem loadBytes_congr {m m' : Memory} {addr addr' n : Nat}
    (h : ∀ i < n, m.byte (addr + i) = m'.byte (addr' + i)) :
    m.loadBytes addr n = m'.loadBytes addr' n := by
  induction n generalizing addr addr' with
  | zero => rfl
  | succ n ih =>
      have hrest : m.loadBytes (addr + 1) n = m'.loadBytes (addr' + 1) n := by
        apply ih
        intro i hi
        rw [Nat.add_right_comm, Nat.add_right_comm addr']
        exact h (i + 1) (Nat.succ_lt_succ hi)
      have hfirst : m.byte addr = m'.byte addr' := h 0 (Nat.succ_pos n)
      rw [loadBytes, loadBytes, hrest, hfirst]

theorem byte_copyWord (m : Memory) (dst src n a : Nat) :
    (m.storeBytes dst n (m.loadBytes src n)).byte a =
      if dst ≤ a ∧ a < dst + n then m.byte (src + (a - dst)) else m.byte a := by
  by_cases h : dst ≤ a ∧ a < dst + n
  · have hi : a - dst < n := by omega
    simp only [storeBytes, if_pos h, byte_loadBytes m src hi]
  · simp only [storeBytes, if_neg h]

theorem byte_clearWord (m : Memory) (dst n a : Nat) :
    (m.storeBytes dst n 0).byte a = if dst ≤ a ∧ a < dst + n then 0 else m.byte a := by
  simp only [storeBytes, Nat.zero_div, Nat.zero_mod]

/-- What is still to be copied has not been overwritten. -/
theorem byte_copyWords (n : Nat) {dst src : Nat} (h : dst ≤ src ∨ src + 4 * n ≤ dst)
    (m : Memory) (a : Nat) :
    (copyWords n dst src m).byte a =
      if dst ≤ a ∧ a < dst + 4 * n then m.byte (src + (a - dst)) else m.byte a := by
  induction n generalizing dst src m with
  | zero =>
      rw [copyWords, if_neg]
      omega
  | succ n ih =>
      have hnext : dst + 4 ≤ src + 4 ∨ src + 4 + 4 * n ≤ dst + 4 := by omega
      rw [copyWords, ih hnext, byte_copyWord, byte_copyWord]
      by_cases hrest : dst + 4 ≤ a ∧ a < dst + 4 + 4 * n
      · have hsource : src + 4 + (a - (dst + 4)) = src + (a - dst) := by omega
        have hall : dst ≤ a ∧ a < dst + 4 * (n + 1) := by omega
        rw [if_pos hrest, if_pos hall, hsource]
        exact if_neg (by omega)
      · rw [if_neg hrest]
        by_cases hfirst : dst ≤ a ∧ a < dst + 4
        · have hall : dst ≤ a ∧ a < dst + 4 * (n + 1) := by omega
          rw [if_pos hfirst, if_pos hall]
        · have hout : ¬ (dst ≤ a ∧ a < dst + 4 * (n + 1)) := by omega
          rw [if_neg hfirst, if_neg hout]

theorem byte_clearWords (n dst : Nat) (m : Memory) (a : Nat) :
    (clearWords n dst m).byte a =
      if dst ≤ a ∧ a < dst + 4 * n then 0 else m.byte a := by
  induction n generalizing dst m with
  | zero =>
      rw [clearWords, if_neg]
      omega
  | succ n ih =>
      rw [clearWords, ih, byte_clearWord]
      by_cases hall : dst ≤ a ∧ a < dst + 4 * (n + 1)
      · rw [if_pos hall]
        by_cases hrest : dst + 4 ≤ a ∧ a < dst + 4 + 4 * n
        · exact if_pos hrest
        · rw [if_neg hrest]
          exact if_pos (by omega)
      · rw [if_neg hall, if_neg (by omega)]
        exact if_neg (by omega)

theorem AgreeOn.refl (m : Memory) (lower upper : Nat) : m.AgreeOn m lower upper :=
  fun _ _ _ => rfl

theorem AgreeOn.trans {m' m'' : Memory} {lower upper : Nat} (h : m.AgreeOn m' lower upper)
    (h' : m'.AgreeOn m'' lower upper) : m.AgreeOn m'' lower upper :=
  fun a hlower hupper => (h' a hlower hupper).trans (h a hlower hupper)

theorem AgreeOn.holds {m' : Memory} {lower upper addr : Nat} {bytes : List UInt8}
    (h : m.AgreeOn m' lower upper) (hholds : m.Holds addr bytes) (hlower : lower ≤ addr)
    (hupper : addr + bytes.length ≤ upper) : m'.Holds addr bytes := by
  intro i hi
  rw [h (addr + i) (by omega) (by omega)]
  exact hholds i hi

theorem AgreeOn.holdsWords {m' : Memory} {lower upper addr : Nat} {words : List Nat}
    (h : m.AgreeOn m' lower upper) (hholds : m.HoldsWords addr words) (hlower : lower ≤ addr)
    (hupper : addr + 4 * words.length ≤ upper) : m'.HoldsWords addr words := by
  intro i hi
  rw [← hholds i hi]
  exact loadBytes_congr fun j hj => h _ (by omega) (by omega)

end Memory

end OpenMptl
