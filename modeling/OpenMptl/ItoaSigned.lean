/-
`poorman::itoa()` of a signed type.  It always writes a sign, negates the value
in the promoted type and hands it on as an `unsigned int`.
-/
import OpenMptl.PoormanCstring

namespace OpenMptl

open Numeral

/-- The smallest value of a signed type. -/
def IntegralType.minimum (T : IntegralType) : Int := -2 ^ (8 * T.size - 1)

/-- `-value`, in a type of at least 32 bits; undefined when it overflows. -/
def negate {T : IntegralType} (value : T.Value) : Option Int :=
  if 32 ≤ 8 * T.size ∧ value.val = T.minimum then none else some (-value.val)

/-- `(unsigned)v` -/
def castUnsigned (v : Int) : Nat := (v % 2 ^ 32).toNat

/-- `itoa()` of a signed type, with `none` for undefined behaviour. -/
def itoaSigned (mem : Buffer Int UInt8) (buf : Int) {T : IntegralType} (value : T.Value)
    (n : Int) (padding : UInt8) : Option (Buffer Int UInt8) := do
  let mem := mem.store buf 45
  let negated ← negate value
  return itoa mem (buf + 1) (castUnsigned negated) (n - 1) padding

/-- A decimal text of the value: a sign in front of the digits of a negative one. -/
def ReadsBack (value : Int) (text : List UInt8) : Prop :=
  if value < 0 then
    ∃ digits, text = 45 :: digits ∧ decAlphabet.read digits = some value.natAbs
  else decAlphabet.read text = some value.natAbs

/-- The same where a sign may stand in front of any digits. -/
def ReadsBackSigned (value : Int) (text : List UInt8) : Prop :=
  (∃ v, decAlphabet.read text = some v ∧ value = v) ∨
    ∃ digits v, text = 45 :: digits ∧ decAlphabet.read digits = some v ∧ value = -v

section Text

variable {cells : Int → UInt8} {buf : Int} {T : IntegralType} {value : T.Value} {n : Nat}

/-- A right aligned number with zeros in front reads back as the number, unless it
does not fit. -/
theorem read_rightAligned {k v w : Nat} (hk : 0 < k) :
    decAlphabet.read (rightAligned 48 126 k (decAlphabet.write (shortest 10 v))) = some w ↔
      v < 10 ^ k ∧ v = w := by
  have hlength : (decAlphabet.write (shortest 10 v)).length = (shortest 10 v).length :=
    List.length_map _
  have hzeros : List.replicate (k - (shortest 10 v).length) 48 ++
      decAlphabet.write (shortest 10 v) =
        decAlphabet.write (List.replicate (k - (shortest 10 v).length) 0 ++ shortest 10 v) := by
    rw [Alphabet.write, Alphabet.write, List.map_append, List.map_replicate]
    rfl
  rw [rightAligned, hlength, ← length_shortest_le_iff (by decide) hk]
  by_cases hfits : (shortest 10 v).length ≤ k
  · rw [if_pos hfits, hzeros, Alphabet.read_write, value_replicate_append, value_shortest,
      Option.some.injEq]
    · exact (and_iff_right hfits).symm
    · intro d hd
      rcases List.mem_append.mp hd with hzero | hd
      · rw [List.eq_of_mem_replicate hzero]
        decide
      · exact lt_of_mem_shortest (by decide) hd
  · rw [if_neg hfits, Alphabet.read_cons_eq_none _ (by decide)]
    simp [hfits]

/-- The text is a sign and a field of the remaining width. -/
theorem itoaSigned_eq_some {mem : Buffer Int UInt8} (hn : 2 ≤ n)
    (h : itoaSigned (.fresh cells) buf value n 48 = some mem) :
    mem.cells (buf + n) = 0 ∧
      mem.text buf n = 45 :: rightAligned 48 126 (n - 1)
        (decAlphabet.write (shortest 10 (castUnsigned (-value.val)))) := by
  unfold itoaSigned at h
  simp only [Option.bind_eq_bind, Option.bind_eq_some_iff, Option.pure_def,
    Option.some.injEq] at h
  obtain ⟨negated, hnegate, rfl⟩ := h
  obtain rfl : -value.val = negated := by
    unfold negate at hnegate
    split at hnegate
    · cases hnegate
    · exact Option.some.inj hnegate
  obtain ⟨n, rfl⟩ := Nat.exists_eq_add_of_le' (Nat.le_of_succ_le hn)
  have hwidth : ((n + 1 : Nat) : Int) - 1 = n := by omega
  have hend : buf + ((n + 1 : Nat) : Int) = buf + 1 + n := by omega
  have hfield := itoa_isField ((Buffer.fresh cells).store buf 45) (buf + 1)
    (castUnsigned (-value.val)) (Nat.le_of_succ_le_succ hn) 48
  have hsign := hfield.writes.frame buf (by simp)
  rw [Buffer.store_cells_self] at hsign
  rw [hwidth, hend, Buffer.text_succ_start, hsign, hfield.text_eq]
  exact ⟨hfield.terminated, rfl⟩

theorem itoaSigned_eq_none_iff :
    itoaSigned (.fresh cells) buf value n 48 = none ↔
      32 ≤ 8 * T.size ∧ value.val = T.minimum := by
  unfold itoaSigned negate
  split <;> simp_all

/-- A magnitude that fits into `unsigned int` survives the cast. -/
theorem castUnsigned_neg {v : Int} (hv : v ≤ 0) :
    castUnsigned (-v) = v.natAbs % 2 ^ 32 := by
  have hneg : -v = (v.natAbs : Int) := by omega
  unfold castUnsigned
  rw [hneg]
  omega

end Text

/-- The text of a defined call, digit string and value compared. -/
theorem itoaSigned_spec {cells : Int → UInt8} {buf : Int} {T : IntegralType} {value : T.Value}
    {n : Nat} (hn : 2 ≤ n) (P : List UInt8 → Prop) :
    (∃ mem, itoaSigned (.fresh cells) buf value n 48 = some mem ∧ mem.cells (buf + n) = 0 ∧
        P (mem.text buf n)) ↔
      ¬ (32 ≤ 8 * T.size ∧ value.val = T.minimum) ∧
        P (45 :: rightAligned 48 126 (n - 1)
          (decAlphabet.write (shortest 10 (castUnsigned (-value.val))))) := by
  rw [← @itoaSigned_eq_none_iff cells buf T value n]
  cases hresult : itoaSigned (.fresh cells) buf value n 48 with
  | none => simp
  | some mem =>
      obtain ⟨hterminated, htext⟩ := itoaSigned_eq_some hn hresult
      simp [hterminated, htext]

section ReadsBack

variable {value : Int} {k : Nat}

/-- The digits behind the sign are right exactly when the magnitude survives. -/
theorem read_magnitude_iff (hk : 0 < k) (hvalue : value ≤ 0) (hfits : value.natAbs < 10 ^ k)
    {w : Nat} (hw : w = value.natAbs) :
    decAlphabet.read (rightAligned 48 126 k
        (decAlphabet.write (shortest 10 (castUnsigned (-value))))) = some w ↔
      value.natAbs < 2 ^ 32 := by
  rw [read_rightAligned hk, castUnsigned_neg hvalue, hw]
  constructor
  · rintro ⟨-, heq⟩
    rw [← heq]
    exact Nat.mod_lt _ (by decide)
  · intro hlt
    rw [Nat.mod_eq_of_lt hlt]
    exact ⟨hfits, rfl⟩

theorem readsBack_iff (hk : 0 < k) (hfits : value.natAbs < 10 ^ k) :
    ReadsBack value (45 :: rightAligned 48 126 k
        (decAlphabet.write (shortest 10 (castUnsigned (-value))))) ↔
      value < 0 ∧ value.natAbs < 2 ^ 32 := by
  unfold ReadsBack
  by_cases hneg : value < 0
  · rw [if_pos hneg, and_iff_right hneg, ← read_magnitude_iff hk hneg.le hfits rfl]
    constructor
    · rintro ⟨digits, hcons, hread⟩
      rwa [(List.cons.inj hcons).2]
    · exact fun hread => ⟨_, rfl, hread⟩
  · rw [if_neg hneg, Alphabet.read_cons_eq_none _ (by decide)]
    simp [hneg]

theorem readsBackSigned_iff (hk : 0 < k) (hfits : value.natAbs < 10 ^ k) :
    ReadsBackSigned value (45 :: rightAligned 48 126 k
        (decAlphabet.write (shortest 10 (castUnsigned (-value))))) ↔
      value ≤ 0 ∧ value.natAbs < 2 ^ 32 := by
  unfold ReadsBackSigned
  constructor
  · rintro (⟨v, hread, -⟩ | ⟨digits, v, hcons, hread, hvalue⟩)
    · rw [Alphabet.read_cons_eq_none _ (by decide)] at hread
      cases hread
    · have hle : value ≤ 0 := by omega
      rw [← (List.cons.inj hcons).2] at hread
      exact ⟨hle, (read_magnitude_iff hk hle hfits (by omega)).mp hread⟩
  · rintro ⟨hle, hlt⟩
    exact Or.inr ⟨_, value.natAbs, rfl, (read_magnitude_iff hk hle hfits rfl).mpr hlt, by omega⟩

end ReadsBack

/-- What a signed `itoa()` writes reads back exactly for negative values whose
magnitude fits into `unsigned int` and can be computed; with a sign allowed in
front of any number, for zero too. -/
theorem itoaSigned_readsBack_iff (cells : Int → UInt8) (buf : Int) (T : IntegralType)
    (value : T.Value) (n : Nat) (hn : (shortest 10 value.val.natAbs).length + 1 ≤ n) :
    ((∃ mem, itoaSigned (.fresh cells) buf value n 48 = some mem ∧ mem.cells (buf + n) = 0 ∧
        ReadsBack value.val (mem.text buf n)) ↔
      value.val < 0 ∧ value.val.natAbs < 2 ^ 32 ∧
        ¬ (32 ≤ 8 * T.size ∧ value.val = -2 ^ (8 * T.size - 1))) ∧
    ((∃ mem, itoaSigned (.fresh cells) buf value n 48 = some mem ∧ mem.cells (buf + n) = 0 ∧
        ReadsBackSigned value.val (mem.text buf n)) ↔
      value.val ≤ 0 ∧ value.val.natAbs < 2 ^ 32 ∧
        ¬ (32 ≤ 8 * T.size ∧ value.val = -2 ^ (8 * T.size - 1))) := by
  have hpos := List.length_pos_iff.mpr (shortest_ne_nil 10 value.val.natAbs)
  have hwidth : 0 < n - 1 := by omega
  have hfits : value.val.natAbs < 10 ^ (n - 1) :=
    (length_shortest_le_iff (by decide) hwidth).mp (by omega)
  rw [itoaSigned_spec (by omega), itoaSigned_spec (by omega), readsBack_iff hwidth hfits,
    readsBackSigned_iff hwidth hfits]
  constructor
  · exact and_comm.trans and_assoc
  · exact and_comm.trans and_assoc

namespace ItoaSignedTest

def int16 : IntegralType := ⟨2, Nat.two_pos, true⟩

/-- `(int16_t)42` -/
def fortyTwo : int16.Value := ⟨42, by decide⟩

/-- `(int16_t)-42` -/
def minusFortyTwo : int16.Value := ⟨-42, by decide⟩

/-- `itoa(buf, (int16_t)42, 12)` is `-04294967254`. -/
theorem itoaSigned_positive :
    ¬ ∀ (T : IntegralType) (value : T.Value) (n : Nat), T.signed = true →
      (shortest 10 value.val.natAbs).length + 1 ≤ n →
      ∃ mem, itoaSigned (.fresh fun _ => 255) 0 value n 48 = some mem ∧ mem.cells n = 0 ∧
        ReadsBack value.val (mem.text 0 n) := by
  intro hall
  obtain ⟨mem, hmem, -, hreads⟩ := hall int16 fortyTwo 12 rfl (by decide)
  obtain rfl := Option.some.inj hmem
  rw [ReadsBack, if_neg (by decide)] at hreads
  exact absurd hreads (by decide)

theorem itoaSigned_readsBack_iff_minus :
    ∃ mem, itoaSigned (.fresh fun _ => 255) 0 minusFortyTwo 4 48 = some mem ∧
      mem.cells 4 = 0 ∧ ReadsBack (-42) (mem.text 0 4) := by
  obtain ⟨hiff, -⟩ := itoaSigned_readsBack_iff (fun _ => 255) 0 int16 minusFortyTwo 4
    (by decide)
  exact hiff.mpr ⟨by decide, by decide, by decide⟩

end ItoaSignedTest

end OpenMptl
