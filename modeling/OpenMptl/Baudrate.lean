/-
The baud rate of the USART.  The divider is computed in hundredths, its fraction
rounded to sixteenths; `baud_to_brr()` cuts the fraction to the four bits of its
field, the `baud_rate<>` trait hands it to `regval<>`.
-/
import Mathlib.Data.Int.Order.Basic
import Mathlib.Tactic.Linarith
import OpenMptl.RegvalTest
import OpenMptl.SetValue

namespace OpenMptl

/-- The frequencies that a `system_clock_type` declares. -/
structure SystemClock where
  pclk1Freq : Nat
  pclk2Freq : Nat

/-- `pclk` of both computations. -/
def usartPclk (usartNo : Nat) (clock : SystemClock) : Nat :=
  if usartNo = 1 then clock.pclk2Freq else clock.pclk1Freq

/-! The common part, in `unsigned` of 32 bits; the products behind the division are
smaller than the quotient. -/

def baudDiv (pclk baud : Nat) : Nat := pclk * 25 % 2 ^ 32 / (4 * baud % 2 ^ 32)

def baudMant (pclk baud : Nat) : Nat := baudDiv pclk baud / 100

def baudFraq (pclk baud : Nat) : Nat :=
  ((baudDiv pclk baud - baudMant pclk baud * 100) * 16 + 50) / 100

section Brr

variable (T : Target) (baseAddr : Nat)

/-- `USART_common::BRR` -/
def brr : Reg := ⟨T.fast16, baseAddr + 0x08, .rw, 0x0000, Nat.two_pow_pos _⟩

def divMantissa : Regbits T where
  reg := brr T baseAddr
  offset := 4
  width := 12
  width_pos := by decide
  fits := T.fast16_ge
  width_lt := lt_of_lt_of_le (by decide) T.ulongWidth_ge
  offset_lt := lt_of_lt_of_le (by decide) T.ulongWidth_ge

def divFraction : Regbits T where
  reg := brr T baseAddr
  offset := 0
  width := 4
  width_pos := by decide
  fits := le_trans (by decide) T.fast16_ge
  width_lt := lt_of_lt_of_le (by decide) T.ulongWidth_ge
  offset_lt := lt_of_lt_of_le (by decide) T.ulongWidth_ge

def baudToBrr (usartNo : Nat) (clock : SystemClock) (baudRate : Nat) : Nat :=
  let pclk := usartPclk usartNo clock
  let mant := baudMant pclk baudRate
  let fraq := baudFraq pclk baudRate
  (mant <<< 4 % 2 ^ 32 ||| (fraq &&& 0x0f)) % 2 ^ (brr T baseAddr).width

def setBaudrate {σ : Type} (A : RegAccess σ) (usartNo : Nat) (clock : SystemClock)
    (value : Nat) (s : σ) : σ :=
  A.store (brr T baseAddr) (baudToBrr T baseAddr usartNo clock value) s

/-- A constant as a template argument. -/
def Regval.toRegmaskType {T : Target} (t : Regval T) : RegmaskType where
  toRegmask := t.toRegmask
  spelling := .regval (.regbits 0 t.field.offset t.field.width) t.constant

/-- `baud_rate<value>`; a division by zero is not a constant expression. -/
def baudRate (usartNo : Nat) (clock : SystemClock) (value : Nat) :
    Except CompileError RegmaskType :=
  if 4 * value % 2 ^ 32 = 0 then .error .constantOverflow
  else do
    let pclk := usartPclk usartNo clock
    let mantissa ← regval (divMantissa T baseAddr) (baudMant pclk value)
    let fraction ← regval (divFraction T baseAddr) (baudFraq pclk value)
    (brr T baseAddr).merge mantissa.toRegmaskType [fraction.toRegmaskType]

end Brr

/-! The numbers: `rest` hundredths are rounded to `fraq` sixteenths. -/

section Rounding

variable {pclk baud mant rest : Nat}

/-- The exact divider lies within one sixteenth of the rounded one; this is also
true of the carry into the mantissa. -/
theorem rounded_divider_error (hbaud : 0 < baud)
    (hlow : 4 * baud * (100 * mant + rest) ≤ 25 * pclk)
    (hhigh : 25 * pclk < 4 * baud * (100 * mant + rest + 1)) :
    |((16 * mant + (rest * 16 + 50) / 100 : Nat) : Int) * baud - pclk| < baud := by
  generalize hfraq : (rest * 16 + 50) / 100 = fraq
  have hdown : 100 * fraq ≤ rest * 16 + 50 := by omega
  have hup : rest * 16 + 50 < 100 * fraq + 100 := by omega
  have hdown' := Nat.mul_le_mul_left baud hdown
  have hup' := Nat.mul_lt_mul_of_pos_left hup hbaud
  rw [abs_lt]
  push_cast
  zify at hlow hhigh hdown' hup'
  constructor <;> nlinarith

/-- Without the carry the divider is off by nearly a whole mantissa step. -/
theorem dropped_carry_error (hlow : 4 * baud * (100 * mant + rest) ≤ 25 * pclk)
    (hrest : 97 ≤ rest) : ¬ |((16 * mant : Nat) : Int) * baud - pclk| < baud := by
  have hrest' := Nat.mul_le_mul_left baud hrest
  rw [abs_lt, not_and_or]
  push_cast
  zify at hlow hrest'
  refine .inl ?_
  rw [not_lt]
  nlinarith

end Rounding

section Domain

variable {pclk baud : Nat}

theorem baudDiv_eq (hpclk : 25 * pclk < 2 ^ 32) (hbaud : 4 * baud < 2 ^ 32) :
    baudDiv pclk baud = 25 * pclk / (4 * baud) := by
  rw [baudDiv, Nat.mul_comm pclk 25, Nat.mod_eq_of_lt hpclk, Nat.mod_eq_of_lt hbaud]

theorem baudFraq_eq (pclk baud : Nat) :
    baudFraq pclk baud = (baudDiv pclk baud % 100 * 16 + 50) / 100 := by
  rw [baudFraq, baudMant]
  omega

/-- The fraction is rounded up to a whole sixteenth too many from 97 hundredths on. -/
theorem baudFraq_lt_iff (pclk baud : Nat) :
    baudFraq pclk baud < 16 ↔ baudDiv pclk baud % 100 < 97 := by
  rw [baudFraq_eq]
  omega

theorem baudFraq_le (pclk baud : Nat) : baudFraq pclk baud ≤ 16 := by
  rw [baudFraq_eq]
  omega

/-- The hundredths, as a condition on the two frequencies. -/
theorem baudDiv_mod_lt_iff (hpclk : 25 * pclk < 2 ^ 32) (hbaud : 4 * baud < 2 ^ 32)
    (hpos : 0 < baud) :
    baudDiv pclk baud % 100 < 97 ↔ 25 * (pclk % (16 * baud)) < 388 * baud := by
  have hmod : baudDiv pclk baud % 100 = 25 * (pclk % (16 * baud)) / (4 * baud) := by
    rw [baudDiv_eq hpclk hbaud, ← Nat.mod_mul_right_div_self, ← Nat.mul_mod_mul_left]
    congr 2
    omega
  rw [hmod, Nat.div_lt_iff_lt_mul (by omega)]
  constructor <;> intro h <;> linarith

theorem baudDiv_bounds (hpclk : 25 * pclk < 2 ^ 32) (hbaud : 4 * baud < 2 ^ 32)
    (hpos : 0 < baud) :
    4 * baud * (100 * baudMant pclk baud + baudDiv pclk baud % 100) ≤ 25 * pclk ∧
      25 * pclk < 4 * baud * (100 * baudMant pclk baud + baudDiv pclk baud % 100 + 1) := by
  have hsplit : 100 * baudMant pclk baud + baudDiv pclk baud % 100 =
      25 * pclk / (4 * baud) := by
    rw [baudMant, ← baudDiv_eq hpclk hbaud, Nat.div_add_mod]
  rw [hsplit]
  exact ⟨Nat.mul_div_le _ _, Nat.lt_mul_div_succ _ (by omega)⟩

/-- The packed value, in which the fraction has four bits. -/
theorem baudToBrr_eq (T : Target) (baseAddr usartNo : Nat) (clock : SystemClock)
    (hmant : baudMant (usartPclk usartNo clock) baud ≤ 4095) :
    baudToBrr T baseAddr usartNo clock baud =
      16 * baudMant (usartPclk usartNo clock) baud +
        baudFraq (usartPclk usartNo clock) baud % 16 := by
  have hge : 2 ^ 16 ≤ 2 ^ (brr T baseAddr).width :=
    Nat.pow_le_pow_right Nat.two_pos T.fast16_ge
  have hfraq : baudFraq (usartPclk usartNo clock) baud &&& 0x0f =
      baudFraq (usartPclk usartNo clock) baud % 16 := Nat.and_two_pow_sub_one_eq_mod _ 4
  have hlt : baudFraq (usartPclk usartNo clock) baud % 16 < 2 ^ 4 := Nat.mod_lt _ (by decide)
  have hshift : baudMant (usartPclk usartNo clock) baud <<< 4 % 2 ^ 32 =
      baudMant (usartPclk usartNo clock) baud <<< 4 := by
    rw [Nat.shiftLeft_eq, Nat.mod_eq_of_lt (by omega)]
  simp only [baudToBrr]
  rw [hfraq, hshift, ← Nat.shiftLeft_add_eq_or_of_lt hlt, Nat.shiftLeft_eq,
    Nat.mod_eq_of_lt (by omega)]
  omega

theorem baudToBrr_lt (T : Target) (baseAddr usartNo : Nat) (clock : SystemClock) :
    baudToBrr T baseAddr usartNo clock baud < 2 ^ (brr T baseAddr).width :=
  Nat.mod_lt _ (Nat.two_pow_pos _)

end Domain

section Trait

variable (T : Target) (baseAddr : Nat)

theorem divMantissa_maskWidth : (divMantissa T baseAddr).maskWidth = 12 := by
  have hge := T.ulongWidth_ge
  simp only [Regbits.maskWidth, divMantissa]
  omega

theorem divFraction_maskWidth : (divFraction T baseAddr).maskWidth = 4 := by
  have hge := T.ulongWidth_ge
  simp only [Regbits.maskWidth, divFraction]
  omega

/-- The two fields share no bit, so their constants never conflict. -/
theorem conflictFree_brr {mantissa fraction : Regval T}
    (hmantissa : mantissa.field = divMantissa T baseAddr)
    (hfraction : fraction.field = divFraction T baseAddr) :
    ConflictFree [mantissa.toRegmaskType, fraction.toRegmaskType] := by
  have hupper : bits mantissa.toRegmask.clearMask = fieldBits 4 12 := by
    rw [Regval.toRegmask_clearMask, mantissa.field.bits_clearMask, hmantissa,
      divMantissa_maskWidth]
    rfl
  have hlower : bits fraction.toRegmask.clearMask = fieldBits 0 4 := by
    rw [Regval.toRegmask_clearMask, fraction.field.bits_clearMask, hfraction,
      divFraction_maskWidth]
    rfl
  intro a ha b hb i ⟨hset, hclear, hnot⟩
  have hmem : i ∈ bits a.clearMask := a.toRegmask.patch.set_le hset
  have hmem' : i ∈ bits b.clearMask := hclear
  simp only [List.mem_cons, List.not_mem_nil, or_false] at ha hb
  rcases ha with rfl | rfl <;> rcases hb with rfl | rfl
  · exact absurd hset (by simp [hnot])
  · rw [Regval.toRegmaskType, hupper, mem_fieldBits] at hmem
    rw [Regval.toRegmaskType, hlower, mem_fieldBits] at hmem'
    omega
  · rw [Regval.toRegmaskType, hlower, mem_fieldBits] at hmem
    rw [Regval.toRegmaskType, hupper, mem_fieldBits] at hmem'
    omega
  · exact absurd hset (by simp [hnot])

/-- The constant 16 does not fit into the fraction. -/
theorem regval_fraction_carry (t : Regval T) : regval (divFraction T baseAddr) 16 ≠ .ok t := by
  intro ht
  obtain ⟨hfield, hconstant⟩ := Regval.eq_of_regval ht
  have hsub := (bits_subset_iff _ _).mpr t.covers
  rw [hfield, hconstant, Regbits.bits_valueFrom, Regbits.bits_clearMask,
    divFraction_maskWidth] at hsub
  have hge : 16 ≤ (brr T baseAddr).width := T.fast16_ge
  have hmem : 4 ∈ fieldBits 0 4 := by
    refine hsub ⟨?_, lt_of_lt_of_le (by decide) hge⟩
    rw [mem_bits_shiftLeft]
    exact ⟨Nat.zero_le _, (by decide : Nat.testBit 16 4 = true)⟩
  rw [mem_fieldBits] at hmem
  omega

/-- The trait is accepted when both constants fit, and packs them. -/
theorem baudRate_eq_ok {usartNo baud : Nat} {clock : SystemClock} (hbaud : 4 * baud < 2 ^ 32)
    (hpos : 0 < baud) (hmant : baudMant (usartPclk usartNo clock) baud ≤ 4095)
    (hfraq : baudFraq (usartPclk usartNo clock) baud < 16) :
    ∃ m, baudRate T baseAddr usartNo clock baud = .ok m ∧
      m.setMask = 16 * baudMant (usartPclk usartNo clock) baud +
        baudFraq (usartPclk usartNo clock) baud := by
  have hnonzero : ¬ 4 * baud % 2 ^ 32 = 0 := by
    rw [Nat.mod_eq_of_lt hbaud]
    omega
  have hmant' : baudMant (usartPclk usartNo clock) baud < 2 ^ (divMantissa T baseAddr).width :=
    Nat.lt_succ_of_le hmant
  obtain ⟨mantissa, hm, hmField, hmConstant⟩ :=
    Regval.regval_eq_ok (divMantissa_maskWidth T baseAddr) hmant'
  obtain ⟨fraction, hf, hfField, hfConstant⟩ :=
    Regval.regval_eq_ok (divFraction_maskWidth T baseAddr) hfraq
  have hreg : ∀ u ∈ mantissa.toRegmaskType :: [fraction.toRegmaskType],
      u.reg = brr T baseAddr := by
    simp only [List.mem_cons, List.not_mem_nil, or_false, forall_eq_or_imp, forall_eq]
    exact ⟨congrArg Regbits.reg hmField, congrArg Regbits.reg hfField⟩
  obtain ⟨m, hmerge, -, hset, -⟩ :=
    Reg.exists_merge hreg (conflictFree_brr T baseAddr hmField hfField)
  refine ⟨m, ?_, ?_⟩
  · rw [baudRate, if_neg hnonzero]
    simp only [hm, hf, ok_bind, hmerge]
  · have hmantSet : mantissa.toRegmask.setMask =
        baudMant (usartPclk usartNo clock) baud <<< 4 := by
      rw [Regval.toRegmask_setMask, hmConstant, hmField, Regbits.valueFrom_eq _ hmant']
      rfl
    have hfraqSet : fraction.toRegmask.setMask =
        baudFraq (usartPclk usartNo clock) baud := by
      rw [Regval.toRegmask_setMask, hfConstant, hfField, Regbits.valueFrom_eq _ hfraq]
      rfl
    have hlt : baudFraq (usartPclk usartNo clock) baud < 2 ^ 4 := hfraq
    rw [hset, unionMask, List.foldr_cons, List.foldr_cons, List.foldr_nil, Nat.or_zero,
      Regval.toRegmaskType, Regval.toRegmaskType, hmantSet, hfraqSet,
      ← Nat.shiftLeft_add_eq_or_of_lt hlt, Nat.shiftLeft_eq]
    omega

end Trait

/-- The computed divider is right to one bit, in both ways, unless the fraction is
rounded up to the next mantissa step. -/
theorem baudRate_within_lsb_iff (T : Target) (baseAddr usartNo : Nat) (clock : SystemClock)
    {baud : Nat} (hpos : 0 < baud) (hpclk : 25 * usartPclk usartNo clock < 2 ^ 32)
    (hbaud : 4 * baud < 2 ^ 32) (hmant : baudMant (usartPclk usartNo clock) baud ≤ 4095) :
    let pclk := usartPclk usartNo clock
    let value := baudToBrr T baseAddr usartNo clock baud
    (∀ b : Bus, (setBaudrate T baseAddr busAccess usartNo clock baud b).file.value
      (brr T baseAddr) = value) ∧
    ((|(value : Int) * baud - pclk| < baud ∧
        ∃ m, baudRate T baseAddr usartNo clock baud = .ok m ∧ m.setMask = value) ↔
      25 * (pclk % (16 * baud)) < 388 * baud) := by
  intro pclk value
  obtain ⟨hlow, hhigh⟩ := baudDiv_bounds hpclk hbaud hpos
  have hvalue : value = 16 * baudMant pclk baud + baudFraq pclk baud % 16 :=
    baudToBrr_eq T baseAddr usartNo clock hmant
  refine ⟨fun b => b.file.store_value_of_lt _ (baudToBrr_lt T baseAddr usartNo clock), ?_⟩
  rw [← baudDiv_mod_lt_iff hpclk hbaud hpos]
  constructor
  · rintro ⟨herror, -⟩
    by_contra hrest
    have hcarry : baudFraq pclk baud = 16 := by
      have hle := baudFraq_le pclk baud
      have hge := mt (baudFraq_lt_iff pclk baud).mp hrest
      omega
    refine dropped_carry_error hlow (by omega) ?_
    rwa [hvalue, hcarry, Nat.mod_self, Nat.add_zero] at herror
  · intro hrest
    have hfraq := (baudFraq_lt_iff pclk baud).mpr hrest
    rw [Nat.mod_eq_of_lt hfraq] at hvalue
    obtain ⟨m, hm, hset⟩ := baudRate_eq_ok T baseAddr hbaud hpos hmant hfraq
    refine ⟨?_, m, hm, hset.trans hvalue.symm⟩
    have herror := rounded_divider_error hpos hlow hhigh
    rw [← baudFraq_eq, ← hvalue] at herror
    exact herror

namespace BaudrateTest

open RegvalTest

/-- An APB1 clock of 36 MHz. -/
def clock36 : SystemClock := ⟨36000000, 72000000⟩

/-- At 1139240 baud the divider is 31.6: BRR becomes 16. -/
theorem baudRate_carry_dropped :
    baudToBrr host 0x40004400 2 clock36 1139240 = 16 ∧
      ¬ |((baudToBrr host 0x40004400 2 clock36 1139240 : Nat) : Int) * 1139240 - 36000000| <
        1139240 := by
  have hvalue : baudToBrr host 0x40004400 2 clock36 1139240 = 16 := by decide
  rw [hvalue]
  decide

theorem baudRate_within_lsb_iff_115200 :
    ∃ m, baudRate host 0x40004400 2 clock36 115200 = .ok m ∧
      m.setMask = baudToBrr host 0x40004400 2 clock36 115200 :=
  (((baudRate_within_lsb_iff host 0x40004400 2 clock36 (by decide) (by decide) (by decide)
    (by decide)).2.mpr (by decide)).2)

end BaudrateTest

end OpenMptl
