/-
`poorman::itoa_hex()` and `poorman::itoa()`: a number as text, right aligned in a
field of `n` characters and zero terminated.  Digits come least significant
first, so all stores go downwards from the end of the field.
-/
import OpenMptl.Numeral
import OpenMptl.StoreBuffer
import Mathlib.Data.UInt

namespace OpenMptl

/-- An integral type other than `bool`: its size in bytes, and its sign. -/
structure IntegralType where
  size : Nat
  size_pos : 0 < size
  signed : Bool

namespace IntegralType

def InRange (T : IntegralType) (v : Int) : Prop :=
  if T.signed then -2 ^ (8 * T.size - 1) ≤ v ∧ v < 2 ^ (8 * T.size - 1)
  else 0 ≤ v ∧ v < 2 ^ (8 * T.size)

instance (T : IntegralType) (v : Int) : Decidable (T.InRange v) :=
  inferInstanceAs (Decidable (if T.signed = true then _ else _))

def Value (T : IntegralType) : Type := { v : Int // T.InRange v }

/-- The conversion to `std::make_unsigned<T>`. -/
def toUnsigned (T : IntegralType) (v : T.Value) : Nat := (v.val % 2 ^ (8 * T.size)).toNat

end IntegralType

open Numeral

/-- `v < 10 ? '0' + v : 'a' + v - 10` -/
def hexChar (v : Nat) : UInt8 := if v < 10 then UInt8.ofNat (48 + v) else UInt8.ofNat (97 + v - 10)

/-- `'0' + v` -/
def decChar (v : Nat) : UInt8 := UInt8.ofNat (48 + v)

/-- A lowercase hexadecimal digit. -/
def hexCharValue (c : UInt8) : Option Nat :=
  if 48 ≤ c.toNat ∧ c.toNat ≤ 57 then some (c.toNat - 48)
  else if 97 ≤ c.toNat ∧ c.toNat ≤ 102 then some (c.toNat - 87)
  else none

def decCharValue (c : UInt8) : Option Nat :=
  if 48 ≤ c.toNat ∧ c.toNat ≤ 57 then some (c.toNat - 48) else none

theorem hexCharValue_hexChar : ∀ d, d < 16 → hexCharValue (hexChar d) = some d := by decide

theorem decCharValue_decChar : ∀ d, d < 10 → decCharValue (decChar d) = some d := by decide

def hexAlphabet : Alphabet 16 UInt8 := ⟨hexChar, hexCharValue, hexCharValue_hexChar⟩

def decAlphabet : Alphabet 10 UInt8 := ⟨decChar, decCharValue, decCharValue_decChar⟩

/-- How a loop takes the lowest digit off a value. -/
structure DigitRule (b : Nat) where
  digit : Nat → UInt8
  rest : Nat → Nat
  alphabet : Alphabet b UInt8
  one_lt : 1 < b
  digit_eq : ∀ v, digit v = alphabet.digit (v % b)
  rest_eq : ∀ v, rest v = v / b

theorem and_fifteen (v : Nat) : v &&& 0xf = v % 16 := Nat.and_two_pow_sub_one_eq_mod v 4

/-- `v = val & 0xf` and `val >>= 4` -/
def hexRule : DigitRule 16 where
  digit v := hexChar (v &&& 0xf)
  rest v := v >>> 4
  alphabet := hexAlphabet
  one_lt := Nat.one_lt_two.trans_le (Nat.le_add_left 2 14)
  digit_eq v := congrArg hexChar (and_fifteen v)
  rest_eq v := Nat.shiftRight_eq_div_pow v 4

/-- `value % 10` and `value /= 10` -/
def decRule : DigitRule 10 where
  digit v := decChar (v % 10)
  rest v := v / 10
  alphabet := decAlphabet
  one_lt := Nat.one_lt_two.trans_le (Nat.le_add_left 2 8)
  digit_eq _ := rfl
  rest_eq _ := rfl

/-- Where a loop stands: the index is below `left`, `value` is not yet written. -/
structure LoopState where
  mem : Buffer Int UInt8
  left : Nat
  value : Nat

/-- The positions that an index runs over until it is negative. -/
def positionsLeft (n : Int) : Nat := (n + 1).toNat

/-- `while(n >= 0 && value)` -/
def digitLoop {b : Nat} (rule : DigitRule b) (buf : Int) (mem : Buffer Int UInt8) :
    Nat → Nat → LoopState
  | 0, value => ⟨mem, 0, value⟩
  | left + 1, value =>
      if value ≠ 0 then
        digitLoop rule buf (mem.store (buf + left) (rule.digit value)) left (rule.rest value)
      else ⟨mem, left + 1, value⟩

/-- `while(n >= 0) buf[n--] = padding;` -/
def padLoop (padding : UInt8) (buf : Int) (mem : Buffer Int UInt8) : Nat → Buffer Int UInt8
  | 0 => mem
  | left + 1 => padLoop padding buf (mem.store (buf + left) padding) left

/-- The padding loop, and `'~'` in front when digits are left over. -/
def finishField (padding : UInt8) (buf : Int) (s : LoopState) : Buffer Int UInt8 :=
  let mem := padLoop padding buf s.mem s.left
  if s.value ≠ 0 then mem.store buf 126 else mem

/-- `itoa_hex()` -/
def itoaHex (mem : Buffer Int UInt8) (buf : Int) {T : IntegralType} (value : T.Value) (n : Int)
    (padding : UInt8) : Buffer Int UInt8 :=
  let val := T.toUnsigned value
  let mem := mem.store (buf + n) 0
  let n := n - 1
  let (mem, n) := if val = 0 then (mem.store (buf + n) 48, n - 1) else (mem, n)
  finishField padding buf (digitLoop hexRule buf mem (positionsLeft n) val)

/-- `itoa()` of an unsigned type. -/
def itoa (mem : Buffer Int UInt8) (buf : Int) (value : Nat) (n : Int) (padding : UInt8) :
    Buffer Int UInt8 :=
  let mem := mem.store (buf + n) 0
  let n := n - 1
  let s := if value = 0 then ⟨mem.store (buf + n) 48, positionsLeft (n - 1), value⟩
    else digitLoop decRule buf mem (positionsLeft n) value
  finishField padding buf s

section Field

variable {b : Nat} (rule : DigitRule b) (buf : Int)

/-- The digits that a field of `n` characters has room for, the lowest first. -/
def fieldDigits (n value : Nat) : List UInt8 :=
  ((shortest b value).reverse.take n).map rule.alphabet.digit

/-- The state before the padding loop. -/
def fieldState (mem : Buffer Int UInt8) (n value : Nat) : LoopState where
  mem := mem.storeDown buf n (fieldDigits rule n value)
  left := n - (fieldDigits rule n value).length
  value := value / b ^ (fieldDigits rule n value).length

variable {rule buf}

theorem fieldDigits_of_pos {n value : Nat} (hvalue : value ≠ 0) :
    fieldDigits rule n value = ((Nat.digits b value).take n).map rule.alphabet.digit := by
  rw [fieldDigits, shortest, if_neg hvalue, List.reverse_reverse]

/-- The digit loop stores the lowest digits and divides them off. -/
theorem digitLoop_eq (mem : Buffer Int UInt8) (n value : Nat) :
    digitLoop rule buf mem n value =
      ⟨mem.storeDown buf n (((Nat.digits b value).take n).map rule.alphabet.digit),
        n - ((Nat.digits b value).take n).length,
        value / b ^ ((Nat.digits b value).take n).length⟩ := by
  induction n generalizing mem value with
  | zero => simp [digitLoop, Buffer.storeDown]
  | succ n ih =>
      rw [digitLoop]
      by_cases hvalue : value = 0
      · simp [hvalue]
      · have hdigits := Nat.digits_def' rule.one_lt (Nat.pos_of_ne_zero hvalue)
        rw [if_pos hvalue, ih, hdigits, rule.digit_eq, rule.rest_eq, List.take_succ_cons,
          List.map_cons, Buffer.storeDown, List.length_cons, Nat.add_sub_add_right,
          Nat.div_div_eq_div_mul, Nat.pow_succ']

theorem padLoop_eq (padding : UInt8) (mem : Buffer Int UInt8) (n : Nat) :
    padLoop padding buf mem n = mem.storeDown buf n (List.replicate n padding) := by
  induction n generalizing mem with
  | zero => rfl
  | succ n ih => rw [padLoop, ih, List.replicate_succ, Buffer.storeDown]

/-- Zero has its only digit stored before the loops. -/
theorem fieldState_zero {mem : Buffer Int UInt8} {n : Nat} (hn : 1 ≤ n) :
    fieldState rule buf mem n 0 =
      ⟨mem.store (buf + (n - 1)) (rule.alphabet.digit 0), n - 1, 0⟩ := by
  obtain ⟨n, rfl⟩ := Nat.exists_eq_add_of_le' hn
  simp [fieldState, fieldDigits, shortest, Buffer.storeDown]

theorem fieldState_of_ne {mem : Buffer Int UInt8} {n value : Nat} (hvalue : value ≠ 0) :
    fieldState rule buf mem n value = digitLoop rule buf mem n value := by
  rw [digitLoop_eq, fieldState, fieldDigits_of_pos hvalue, List.length_map]

theorem positionsLeft_sub_one (n : Nat) : positionsLeft (n - 1) = n := by
  unfold positionsLeft
  omega

/-- One position is taken by the digit of zero. -/
theorem positionsLeft_sub_two {n : Nat} (hn : 1 ≤ n) : positionsLeft (n - 1 - 1) = n - 1 := by
  unfold positionsLeft
  omega

theorem itoaHex_eq (mem : Buffer Int UInt8) {T : IntegralType} (value : T.Value) {n : Nat}
    (hn : 1 ≤ n) (padding : UInt8) :
    itoaHex mem buf value n padding = finishField padding buf
      (fieldState hexRule buf (mem.store (buf + n) 0) n (T.toUnsigned value)) := by
  unfold itoaHex
  by_cases hvalue : T.toUnsigned value = 0
  · simp only [hvalue, if_true, positionsLeft_sub_two hn, fieldState_zero hn]
    cases hpositions : n - 1 <;> rfl
  · simp only [hvalue, if_false, positionsLeft_sub_one, fieldState_of_ne hvalue]

theorem itoa_eq (mem : Buffer Int UInt8) (value : Nat) {n : Nat} (hn : 1 ≤ n)
    (padding : UInt8) :
    itoa mem buf value n padding = finishField padding buf
      (fieldState decRule buf (mem.store (buf + n) 0) n value) := by
  unfold itoa
  by_cases hvalue : value = 0
  · simp only [hvalue, if_true, positionsLeft_sub_two hn, fieldState_zero hn]
    rfl
  · simp only [hvalue, if_false, positionsLeft_sub_one, fieldState_of_ne hvalue]

theorem length_fieldDigits (n value : Nat) :
    (fieldDigits rule n value).length = min n (shortest b value).length := by
  simp [fieldDigits]

/-- A value is left over exactly when its digits do not fit. -/
theorem fieldState_value_eq_zero_iff (rule : DigitRule b) (buf : Int)
    (mem : Buffer Int UInt8) {n value : Nat} (hn : 1 ≤ n) :
    (fieldState rule buf mem n value).value = 0 ↔ (shortest b value).length ≤ n := by
  have hpos : 0 < (shortest b value).length :=
    List.length_pos_iff.mpr (shortest_ne_nil b value)
  simp only [fieldState, length_fieldDigits]
  have hbase := rule.one_lt
  rw [Nat.div_eq_zero_iff, ← length_shortest_le_iff hbase (by omega)]
  have hpow : b ^ min n (shortest b value).length ≠ 0 := by positivity
  omega

/-- The digits read from the left are the end of the shortest string. -/
theorem reverse_fieldDigits (n value : Nat) :
    (fieldDigits rule n value).reverse =
      (rule.alphabet.write (shortest b value)).drop ((shortest b value).length - n) := by
  rw [fieldDigits, Alphabet.write, ← List.map_reverse, List.take_reverse, List.reverse_reverse,
    List.map_drop]

end Field

/-- The routine has written a zero terminated text of `n` characters, and nothing
else. -/
structure IsField (mem mem' : Buffer Int UInt8) (buf : Int) (n : Nat) (text : List UInt8) :
    Prop where
  writes : mem.Writes mem' { i | buf ≤ i ∧ i ≤ buf + n }
  terminated : mem'.cells (buf + n) = 0
  text_eq : mem'.text buf n = text

section Finish

variable {b : Nat} {rule : DigitRule b} {buf : Int} {mem : Buffer Int UInt8} {n value : Nat}
  {padding : UInt8}

/-- The terminator, and a full field below it. -/
theorem isField_storeDown {cs : List UInt8} (hlength : cs.length = n) :
    IsField mem ((mem.store (buf + n) 0).storeDown buf n cs) buf n cs.reverse where
  writes := by
    have hwrites := (Buffer.writes_store mem (buf + n) 0).trans
      (@Buffer.writes_storeDown _ buf _ n cs hlength)
    refine hwrites.congr fun i => ?_
    simp only [Set.mem_ofPred_eq, Set.mem_union, Set.mem_singleton_iff]
    omega
  terminated := by
    rw [(Buffer.writes_storeDown hlength).frame _ (by simp), Buffer.store_cells_self]
  text_eq := Buffer.text_storeDown hlength

/-- The mark in front of a field. -/
theorem IsField.mark {mem' : Buffer Int UInt8} {text : List UInt8} (hn : 1 ≤ n)
    (h : IsField mem mem' buf n text) (c : UInt8) :
    IsField mem (mem'.store buf c) buf n (c :: text.tail) where
  writes := by
    have hwrites := h.writes.trans (Buffer.writes_store mem' buf c)
    refine hwrites.congr fun i => ?_
    simp only [Set.mem_ofPred_eq, Set.mem_union, Set.mem_singleton_iff]
    omega
  terminated := by
    rw [Buffer.store_cells_ne (by omega), h.terminated]
  text_eq := by
    obtain ⟨n, rfl⟩ := Nat.exists_eq_add_of_le' hn
    rw [Buffer.text_store_start, h.text_eq]

/-- The padded digits, before a mark is set. -/
theorem padLoop_fieldState :
    IsField mem (padLoop padding buf (fieldState rule buf (mem.store (buf + n) 0) n value).mem
        (fieldState rule buf (mem.store (buf + n) 0) n value).left) buf n
      (List.replicate (n - (shortest b value).length) padding ++
        (rule.alphabet.write (shortest b value)).drop ((shortest b value).length - n)) := by
  have hle : (fieldDigits rule n value).length ≤ n := by
    rw [length_fieldDigits]
    exact Nat.min_le_left _ _
  have hpadding : n - (fieldDigits rule n value).length = n - (shortest b value).length := by
    rw [length_fieldDigits]
    omega
  have hlength : (fieldDigits rule n value ++
      List.replicate (n - (fieldDigits rule n value).length) padding).length = n := by
    rw [List.length_append, List.length_replicate]
    omega
  have hfield := @isField_storeDown buf mem n _ hlength
  rw [List.reverse_append, List.reverse_replicate, reverse_fieldDigits, hpadding] at hfield
  rw [padLoop_eq]
  simp only [fieldState]
  rw [← Buffer.storeDown_append hle, hpadding]
  exact hfield

/-- The finished field is the right aligned digit string. -/
theorem isField_finishField (hn : 1 ≤ n) :
    IsField mem (finishField padding buf (fieldState rule buf (mem.store (buf + n) 0) n value))
      buf n (rightAligned padding 126 n (rule.alphabet.write (shortest b value))) := by
  have hfield := @padLoop_fieldState b rule buf mem n value padding
  have hlength : (rule.alphabet.write (shortest b value)).length = (shortest b value).length :=
    List.length_map _
  by_cases hfits : (shortest b value).length ≤ n
  · have hzero := (fieldState_value_eq_zero_iff rule buf (mem.store (buf + n) 0) hn).mpr hfits
    rw [Nat.sub_eq_zero_of_le hfits, List.drop_zero] at hfield
    rw [finishField, if_neg (not_not.mpr hzero), rightAligned, hlength, if_pos hfits]
    exact hfield
  · have hleft :=
      mt (fieldState_value_eq_zero_iff rule buf (mem.store (buf + n) 0) hn).mp hfits
    have hmark := hfield.mark hn 126
    have hdrop : (shortest b value).length - n + 1 = (shortest b value).length - (n - 1) := by
      omega
    rw [Nat.sub_eq_zero_of_le (Nat.le_of_not_le hfits), List.replicate_zero, List.nil_append,
      List.tail_drop, hdrop] at hmark
    rw [finishField, if_pos hleft, rightAligned, hlength, if_neg hfits]
    exact hmark

end Finish

theorem itoaHex_isField (mem : Buffer Int UInt8) (buf : Int) {T : IntegralType}
    (value : T.Value) {n : Nat} (hn : 1 ≤ n) (padding : UInt8) :
    IsField mem (itoaHex mem buf value n padding) buf n
      (rightAligned padding 126 n (hexAlphabet.write (shortest 16 (T.toUnsigned value)))) := by
  rw [itoaHex_eq mem value hn padding]
  exact isField_finishField hn

theorem itoa_isField (mem : Buffer Int UInt8) (buf : Int) (value : Nat) {n : Nat}
    (hn : 1 ≤ n) (padding : UInt8) :
    IsField mem (itoa mem buf value n padding) buf n
      (rightAligned padding 126 n (decAlphabet.write (shortest 10 value))) := by
  rw [itoa_eq mem value hn padding]
  exact isField_finishField hn

section Bounds

variable {cells : Int → UInt8} {buf : Int}

theorem IsField.of_fresh {mem : Buffer Int UInt8} {n : Nat} {text : List UInt8}
    (h : IsField (.fresh cells) mem buf n text) :
    (∀ i, i ∈ mem.stored ↔ buf ≤ i ∧ i ≤ buf + n) ∧ mem.cells (buf + n) = 0 ∧
      mem.text buf n = text :=
  ⟨fun i => h.writes.mem_stored i, h.terminated, h.text_eq⟩

/-- Only the buffer is written, and it ends with the terminator. -/
def InBounds (buf : Int) (n : Nat) (mem : Buffer Int UInt8) : Prop :=
  (∀ i ∈ mem.stored, buf ≤ i ∧ i ≤ buf + n) ∧ mem.cells (buf + n) = 0

theorem IsField.inBounds {mem : Buffer Int UInt8} {n : Nat} {text : List UInt8}
    (h : IsField (.fresh cells) mem buf n text) : InBounds buf n mem :=
  ⟨fun i hi => (h.writes.mem_stored i).mp hi, h.terminated⟩

/-- What a field without characters comes to: the digit of zero goes below the
buffer, the mark of any other value replaces the terminator. -/
def emptyField (cells : Int → UInt8) (buf : Int) (value : Nat) : Buffer Int UInt8 :=
  let mem := (Buffer.fresh cells).store (buf + 0) 0
  if value = 0 then mem.store (buf + (0 - 1)) 48 else mem.store buf 126

theorem not_inBounds_emptyField (value : Nat) :
    ¬ InBounds buf 0 (emptyField cells buf value) := by
  rintro ⟨hstored, hterminated⟩
  unfold emptyField at hstored hterminated
  by_cases hvalue : value = 0
  · rw [if_pos hvalue] at hstored
    have hbelow := (hstored (buf + (0 - 1)) List.mem_cons_self).1
    omega
  · rw [if_neg hvalue, Nat.cast_zero, Int.add_zero, Buffer.store_cells_self] at hterminated
    exact absurd hterminated (by decide)

theorem itoaHex_emptyField {T : IntegralType} (value : T.Value) (padding : UInt8) :
    itoaHex (.fresh cells) buf value 0 padding = emptyField cells buf (T.toUnsigned value) := by
  unfold itoaHex emptyField
  by_cases hvalue : T.toUnsigned value = 0
  · simp only [hvalue, if_true]
    rfl
  · simp only [hvalue, if_false]
    exact if_pos hvalue

theorem itoa_emptyField (value : Nat) (padding : UInt8) :
    itoa (.fresh cells) buf value 0 padding = emptyField cells buf value := by
  unfold itoa emptyField
  by_cases hvalue : value = 0
  · simp only [hvalue, if_true]
    rfl
  · simp only [hvalue, if_false]
    exact if_pos hvalue

end Bounds

/-- For a field of at least one character, exactly the field and its terminator are
written, and it holds the digits as far as they fit. -/
theorem itoa_writes_field (cells : Int → UInt8) (buf : Int) (n : Nat) (hn : 1 ≤ n)
    (padding : UInt8) :
    (∀ (T : IntegralType) (value : T.Value),
      let mem := itoaHex (.fresh cells) buf value n padding
      (∀ i, i ∈ mem.stored ↔ buf ≤ i ∧ i ≤ buf + n) ∧ mem.cells (buf + n) = 0 ∧
        mem.text buf n = rightAligned padding 126 n
          (hexAlphabet.write (shortest 16 (T.toUnsigned value)))) ∧
    (∀ value : Nat,
      let mem := itoa (.fresh cells) buf value n padding
      (∀ i, i ∈ mem.stored ↔ buf ≤ i ∧ i ≤ buf + n) ∧ mem.cells (buf + n) = 0 ∧
        mem.text buf n = rightAligned padding 126 n
          (decAlphabet.write (shortest 10 value))) :=
  ⟨fun _ value => (itoaHex_isField (.fresh cells) buf value hn padding).of_fresh,
    fun value => (itoa_isField (.fresh cells) buf value hn padding).of_fresh⟩

/-- The routines stay within `n + 1` bytes exactly when the field has a character. -/
theorem itoa_inBounds_iff (cells : Int → UInt8) (buf : Int) (n : Nat) (padding : UInt8) :
    (∀ (T : IntegralType) (value : T.Value),
      InBounds buf n (itoaHex (.fresh cells) buf value n padding) ↔ 1 ≤ n) ∧
    (∀ value : Nat, InBounds buf n (itoa (.fresh cells) buf value n padding) ↔ 1 ≤ n) := by
  rcases Nat.eq_zero_or_pos n with rfl | hn
  · refine ⟨fun T value => iff_of_false ?_ (by omega), fun value => iff_of_false ?_ (by omega)⟩
    · rw [Nat.cast_zero, itoaHex_emptyField]
      exact not_inBounds_emptyField _
    · rw [Nat.cast_zero, itoa_emptyField]
      exact not_inBounds_emptyField _
  · refine ⟨fun T value => iff_of_true ?_ hn, fun value => iff_of_true ?_ hn⟩
    · exact (itoaHex_isField (.fresh cells) buf value hn padding).inBounds
    · exact (itoa_isField (.fresh cells) buf value hn padding).inBounds

namespace PoormanCstringTest

def uint8 : IntegralType := ⟨1, Nat.one_pos, false⟩

/-- `(uint8_t)42` -/
def fortyTwo : uint8.Value := ⟨42, by decide⟩

/-- `itoa_hex(buf, 42, 4)` is `002a`, `itoa(buf, 1234, 3)` is `~34`. -/
theorem itoa_writes_field_examples :
    (itoaHex (.fresh fun _ => 255) 0 fortyTwo 4 48).text 0 4 = [48, 48, 50, 97] ∧
      (itoa (.fresh fun _ => 255) 0 1234 3 32).text 0 3 = [126, 51, 52] := by
  obtain ⟨hhex, -⟩ := itoa_writes_field (fun _ => 255) 0 4 (by decide) 48
  obtain ⟨-, hdec⟩ := itoa_writes_field (fun _ => 255) 0 3 (by decide) 32
  exact ⟨(hhex uint8 fortyTwo).2.2.trans (by decide), (hdec 1234).2.2.trans (by decide)⟩

/-- `itoa(buf, 0u, 0)` stores below the buffer. -/
theorem itoa_out_of_bounds :
    ¬ ∀ (cells : Int → UInt8) (buf : Int) (value n : Nat) (padding : UInt8),
      InBounds buf n (itoa (.fresh cells) buf value n padding) := by
  intro hall
  obtain ⟨hstored, -⟩ := hall (fun _ => 255) 0 0 0 48
  exact absurd (hstored (-1) (by decide)) (by decide)

end PoormanCstringTest

end OpenMptl
