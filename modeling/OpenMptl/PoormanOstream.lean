/-
`ostream::operator<<` of an integral value: one character per nibble, the highest
first, taken by arithmetic right shifts.  The text is the one that `itoa_hex()`
builds from the low end.
-/
import OpenMptl.PoormanCstring
import Mathlib.Data.Int.Init

namespace OpenMptl

open Numeral

/-- `nibble(unsigned val)` -/
def nibble (val : Nat) : UInt8 := hexChar (val &&& 0xf)

/-- The conversion of an argument to `unsigned`. -/
def toUnsignedInt (v : Int) : Nat := (v % 2 ^ 32).toNat

/-- The characters that the loop puts, for the `k` lowest nibbles; the index of the
source is `4 * k` here. -/
def putNibbles (val : Int) : Nat → List UInt8
  | 0 => []
  | k + 1 => nibble (toUnsignedInt (val >>> (4 * k))) :: putNibbles val k

/-- `operator<<` of an integral type: what it puts on the stream. -/
def ostreamPut {T : IntegralType} (val : T.Value) : List UInt8 := putNibbles val.val (2 * T.size)

/-- Cutting off high digits and shifting commute. -/
theorem emod_mul_ediv_self (v : Int) {a : Int} (b : Int) (ha : 0 < a) :
    v % (a * b) / a = v / a % b := by
  rw [Int.emod_def, Int.emod_def, ← Int.ediv_ediv_of_nonneg ha.le, Int.mul_assoc,
    Int.sub_eq_add_neg, ← Int.mul_neg, Int.add_mul_ediv_left _ _ ha.ne', Int.sub_eq_add_neg]

theorem shiftRight_eq_div (v : Int) (k : Nat) : v >>> (4 * k) = v / 16 ^ k := by
  have hpow : ((2 ^ (4 * k) : Nat) : Int) = 16 ^ k := by
    rw [Nat.pow_mul, Nat.cast_pow]
    rfl
  rw [Int.shiftRight_eq_div_pow, hpow]

theorem toUnsignedInt_emod (v : Int) : ((toUnsignedInt v % 16 : Nat) : Int) = v % 16 := by
  have hnonneg : 0 ≤ v % 2 ^ 32 := Int.emod_nonneg v (by decide)
  rw [toUnsignedInt, Int.natCast_mod, Int.toNat_of_nonneg hnonneg]
  exact Int.emod_emod_of_dvd v (by decide)

/-- Shifting and masking picks a digit of the two's complement. -/
theorem nibble_shift (v : Int) {k n : Nat} (hk : k < n) :
    nibble (toUnsignedInt (v >>> (4 * k))) =
      hexChar ((v % 16 ^ n).toNat / 16 ^ k % 16) := by
  have hpow : (16 : Int) ^ n = 16 ^ k * 16 ^ (n - k) := by
    rw [← pow_add, Nat.add_sub_cancel' hk.le]
  have hnonneg : 0 ≤ v % 16 ^ n := Int.emod_nonneg v (by positivity)
  have hdvd : (16 : Int) ∣ 16 ^ (n - k) := dvd_pow_self 16 (by omega)
  have hdigit : ((toUnsignedInt (v >>> (4 * k)) % 16 : Nat) : Int) =
      (((v % 16 ^ n).toNat / 16 ^ k % 16 : Nat) : Int) := by
    rw [toUnsignedInt_emod, shiftRight_eq_div, Int.natCast_mod, Int.natCast_div,
      Int.toNat_of_nonneg hnonneg, Nat.cast_pow, hpow]
    change _ = v % (16 ^ k * 16 ^ (n - k)) / 16 ^ k % 16
    rw [emod_mul_ediv_self v _ (by positivity), Int.emod_emod_of_dvd _ hdvd]
  rw [nibble, and_fifteen, Int.ofNat_inj.mp hdigit]

/-- The loop puts the lowest digits of the two's complement. -/
theorem putNibbles_eq (v : Int) {k n : Nat} (hk : k ≤ n) :
    putNibbles v k = hexAlphabet.write (lowDigits 16 k (v % 16 ^ n).toNat) := by
  induction k with
  | zero => rfl
  | succ k ih =>
      rw [putNibbles, nibble_shift v hk, ih (Nat.le_of_succ_le hk)]
      rfl

theorem toUnsigned_eq {T : IntegralType} (value : T.Value) :
    T.toUnsigned value = (value.val % 16 ^ (2 * T.size)).toNat := by
  have hpow : (2 : Int) ^ (8 * T.size) = 16 ^ (2 * T.size) := by
    rw [show 8 * T.size = 4 * (2 * T.size) by omega, pow_mul]
    rfl
  rw [IntegralType.toUnsigned, hpow]

theorem toUnsigned_lt {T : IntegralType} (value : T.Value) :
    T.toUnsigned value < 16 ^ (2 * T.size) := by
  have hpos : (0 : Int) < 16 ^ (2 * T.size) := by positivity
  have hlt := Int.emod_lt_of_pos value.val hpos
  rw [toUnsigned_eq, Int.toNat_lt (Int.emod_nonneg _ hpos.ne')]
  exact_mod_cast hlt

theorem ostreamPut_eq {T : IntegralType} (value : T.Value) :
    ostreamPut value = hexAlphabet.write (lowDigits 16 (2 * T.size) (T.toUnsigned value)) := by
  rw [ostreamPut, putNibbles_eq _ (Nat.le_refl _), toUnsigned_eq]

theorem hexChar_lowercase : ∀ d, d < 16 →
    (48 ≤ hexChar d ∧ hexChar d ≤ 57) ∨ (97 ≤ hexChar d ∧ hexChar d ≤ 102) := by decide

/-- In a field of default width all digits fit, with zeros in front. -/
theorem rightAligned_eq_lowDigits {n v : Nat} (hn : 0 < n) (hv : v < 16 ^ n) :
    rightAligned 48 126 n (hexAlphabet.write (shortest 16 v)) =
      hexAlphabet.write (lowDigits 16 n v) := by
  have hfits := (length_shortest_le_iff (by decide) hn).mpr hv
  have hlength : (hexAlphabet.write (shortest 16 v)).length = (shortest 16 v).length :=
    List.length_map _
  rw [rightAligned, hlength, if_pos hfits, ← replicate_append_shortest (by decide) hfits,
    Alphabet.write, Alphabet.write, List.map_append, List.map_replicate]
  rfl

/-- The stream output is the hexadecimal two's complement, and the text of
`itoa_hex()` with its default width and padding. -/
theorem ostream_eq_itoaHex (T : IntegralType) (value : T.Value) :
    (ostreamPut value).length = 2 * T.size ∧
    (∀ c ∈ ostreamPut value, (48 ≤ c ∧ c ≤ 57) ∨ (97 ≤ c ∧ c ≤ 102)) ∧
    hexAlphabet.read (ostreamPut value) = some (value.val % 2 ^ (8 * T.size)).toNat ∧
    ∀ (cells : Int → UInt8) (buf : Int),
      let mem := itoaHex (.fresh cells) buf value (2 * T.size : Nat) 48
      mem.text buf (2 * T.size) = ostreamPut value ∧
        mem.cells (buf + (2 * T.size : Nat)) = 0 := by
  have hdigits : ∀ d ∈ lowDigits 16 (2 * T.size) (T.toUnsigned value), d < 16 :=
    fun d hd => lt_of_mem_lowDigits (by decide) hd
  have hwidth : 0 < 2 * T.size := Nat.mul_pos Nat.two_pos T.size_pos
  rw [ostreamPut_eq]
  refine ⟨?_, ?_, ?_, fun cells buf => ?_⟩
  · rw [Alphabet.write, List.length_map, length_lowDigits]
  · intro c hc
    obtain ⟨d, hd, rfl⟩ := List.mem_map.mp hc
    exact hexChar_lowercase d (hdigits d hd)
  · rw [Alphabet.read_write _ hdigits, value_lowDigits, Nat.mod_eq_of_lt (toUnsigned_lt value)]
    rfl
  · have hfield := itoaHex_isField (.fresh cells) buf value hwidth 48
    rw [rightAligned_eq_lowDigits hwidth (toUnsigned_lt value)] at hfield
    exact ⟨hfield.text_eq, hfield.terminated⟩

end OpenMptl
