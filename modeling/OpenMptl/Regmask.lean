/-
Set and clear masks on one register: `regmask<>`, its member functions, and the
right fold `mpl::merged_regmask<>` that combines a list of them.
-/
import OpenMptl.Register

namespace OpenMptl

universe u

/-- What `regmask<Tp, set_mask, clear_mask>` provides to its users. -/
structure Regmask where
  reg : Reg
  setMask : Nat
  clearMask : Nat
  /-- "clear_mask does not cover all bits of set_mask" -/
  covers : setMask ||| clearMask = clearMask
  clearMask_lt : clearMask < 2 ^ reg.width
deriving DecidableEq

/-- How a class derived from `regmask<>` is written.  Classes that agree on all
their members are still different types when they are spelled differently; the
number `tp` tells which class stands for the register (0 is `reg<>` itself). -/
inductive Spelling
  | regmask (tp : Nat)
  | regbits (tp offset width : Nat)
  | regval (field : Spelling) (value : Nat)
  | derived (name : Nat) (base : Spelling)
deriving DecidableEq, Repr

/-- `regval<>` hides the public `clear()` of its base class. -/
def Spelling.clearPrivate : Spelling → Bool
  | .regmask _ => false
  | .regbits _ _ _ => false
  | .regval _ _ => true
  | .derived _ base => base.clearPrivate

/-- A type derived from `regmask<>`: its members together with its identity. -/
structure RegmaskType extends Regmask where
  spelling : Spelling
deriving DecidableEq

def Reg.neutralRegmask (r : Reg) : RegmaskType where
  reg := r
  setMask := 0
  clearMask := 0
  covers := rfl
  clearMask_lt := Nat.two_pow_pos r.width
  spelling := .regmask 0

/-- The members of `mpl::bitcount<x>`. -/
structure Bitcount where
  value : Nat
  significantBits : Nat
deriving DecidableEq, Repr

/-- The recursion of `mpl::bitcount<>`; halving reaches zero within `fuel`. -/
def bitcountAux : Nat → Nat → Bitcount
  | 0, _ => ⟨0, 0⟩
  | fuel + 1, x =>
      if x = 0 then ⟨0, 0⟩
      else
        let bc := bitcountAux fuel (x / 2)
        ⟨if x &&& 1 ≠ 0 then bc.value + 1 else bc.value, bc.significantBits + 1⟩

def bitcount (x : Nat) : Bitcount := bitcountAux x x

/-- The preprocessor switches `CONFIG_DISABLE_AUTO_BITBAND_WRITE` and `_READ`. -/
structure BitbandConfig where
  disableWrite : Bool
  disableRead : Bool
deriving DecidableEq, Repr

/-- `CONFIG_DISABLE_AUTO_BITBAND` turns both switches on. -/
def BitbandConfig.disabled : BitbandConfig := ⟨true, true⟩

def BitbandConfig.automatic : BitbandConfig := ⟨false, false⟩

namespace Regmask

def croppedClearMask (t : Regmask) : Nat :=
  t.clearMask &&& bitNot t.reg.width t.setMask

/-- The member `bitcount`: the parameter of `mpl::bitcount<>` is an `unsigned`.  With
`CONFIG_DISABLE_AUTO_BITBAND` the class has no such member. -/
def checkBitcount (cfg : BitbandConfig) (t : Regmask) : Except CompileError Unit :=
  if cfg = .disabled ∨ t.clearMask < 2 ^ 32 then .ok () else .error .narrowing

def bitopEnabled (t : Regmask) : Bool :=
  t.reg.bitopEnabled && (bitcount t.clearMask).value == 1

section Functions

variable {σ : Type u} (A : RegAccess σ) (cfg : BitbandConfig)

def set (t : Regmask) (s : σ) : σ :=
  if !cfg.disableWrite && (t.bitopEnabled && t.setMask == t.clearMask) then
    A.bitset t.reg ((bitcount t.clearMask).significantBits - 1) s
  else if t.setMask ≠ 0 ∨ t.clearMask ≠ 0 then
    t.reg.setClear A t.setMask t.croppedClearMask s
  else s

def clear (t : Regmask) (s : σ) : σ :=
  if !cfg.disableWrite && t.bitopEnabled then
    A.bitclear t.reg ((bitcount t.clearMask).significantBits - 1) s
  else if t.clearMask ≠ 0 then t.reg.clear A t.clearMask s
  else s

def test (t : Regmask) (s : σ) : Bool × σ :=
  if t.clearMask = 0 then (false, s)
  else if !cfg.disableRead && (t.bitopEnabled && t.setMask != 0) then
    A.bittest t.reg ((bitcount t.clearMask).significantBits - 1) s
  else if !cfg.disableRead && (t.bitopEnabled && t.setMask == 0) then
    let (b, s) := A.bittest t.reg ((bitcount t.clearMask).significantBits - 1) s
    (!b, s)
  else
    let (v, s) := A.load t.reg s
    if t.clearMask = t.setMask then (decide (v &&& t.clearMask ≠ 0), s)
    else (decide (v &&& t.clearMask = t.setMask), s)

def resetTo (t : Regmask) (s : σ) : σ :=
  A.store t.reg
    ((t.reg.resetValue &&& bitNot t.reg.width t.croppedClearMask) ||| t.setMask) s

end Functions

theorem setMask_lt (t : Regmask) : t.setMask < 2 ^ t.reg.width := by
  have hle : t.setMask ≤ t.clearMask := by
    have hor := Nat.left_le_or (n := t.setMask) (m := t.clearMask)
    rwa [t.covers] at hor
  exact hle.trans_lt t.clearMask_lt

/-- `regmask::merge<>`: the type when both set/clear checks pass. -/
def merge (t rm : Regmask) : Except CompileError Regmask :=
  if hreg : rm.reg = t.reg then
    if (rm.setMask &&& t.clearMask) &&& bitNot t.reg.width t.setMask ≠ 0 then
      .error .settingCleared
    else if (t.setMask &&& rm.clearMask) &&& bitNot t.reg.width rm.setMask ≠ 0 then
      .error .clearingSet
    else .ok {
      reg := t.reg
      setMask := t.setMask ||| rm.setMask
      clearMask := t.clearMask ||| rm.clearMask
      covers := by
        apply bits_injective
        have ht := (bits_subset_iff _ _).mpr t.covers
        have hrm := (bits_subset_iff _ _).mpr rm.covers
        simp only [bits_or]
        exact Set.union_eq_right.mpr (Set.union_subset_union ht hrm)
      clearMask_lt := Nat.or_lt_two_pow t.clearMask_lt (hreg ▸ rm.clearMask_lt) }
  else .error .notSameReg

end Regmask

/-- `mpl::merged_regmask<T0, Tp...>` on a list without `void`: a single type is
kept as it is, and every further head merges with the merged rest. -/
def mergedRegmask (t : RegmaskType) : List RegmaskType → Except CompileError RegmaskType
  | [] => .ok t
  | u :: us => do
      let rest ← mergedRegmask u us
      let merged ← t.toRegmask.merge rest.toRegmask
      return ⟨merged, .regmask 0⟩

/-! What the bit count says about a mask. -/

theorem bitcountAux_eq {fuel x : Nat} (h : x ≤ fuel) :
    bitcountAux fuel x = bitcountAux x x := by
  induction x using Nat.strong_induction_on generalizing fuel with
  | h x ih =>
      cases fuel with
      | zero => rw [Nat.le_zero.mp h]
      | succ fuel =>
          cases x with
          | zero => simp [bitcountAux]
          | succ x =>
              have hfuel := @ih ((x + 1) / 2) (by omega) fuel (by omega)
              have hself := @ih ((x + 1) / 2) (by omega) x (by omega)
              simp only [bitcountAux, hfuel, hself]

/-- The two class templates of the source. -/
theorem bitcount_zero : bitcount 0 = ⟨0, 0⟩ := rfl

theorem bitcount_of_pos {x : Nat} (hx : 0 < x) :
    bitcount x = ⟨if x &&& 1 ≠ 0 then (bitcount (x / 2)).value + 1
      else (bitcount (x / 2)).value, (bitcount (x / 2)).significantBits + 1⟩ := by
  obtain ⟨y, rfl⟩ := Nat.exists_eq_succ_of_ne_zero hx.ne'
  have hhalf : bitcountAux y ((y + 1) / 2) = bitcount ((y + 1) / 2) :=
    bitcountAux_eq (by omega)
  change bitcountAux (y + 1) (y + 1) = _
  simp only [bitcountAux, hhalf, Nat.add_eq_zero_iff, one_ne_zero, and_false, ↓reduceIte]

theorem bitcount_value_eq_zero_iff (x : Nat) : (bitcount x).value = 0 ↔ x = 0 := by
  induction x using Nat.strong_induction_on with
  | h x ih =>
      rcases Nat.eq_zero_or_pos x with rfl | hx
      · simp [bitcount_zero]
      · rw [bitcount_of_pos hx, Nat.and_one_is_mod]
        have hhalf := ih (x / 2) (by omega)
        rcases Nat.mod_two_eq_zero_or_one x with heven | hodd
        · simp only [heven, ne_eq, not_true_eq_false, ↓reduceIte, hhalf]
          omega
        · simp [hodd, hx.ne']

theorem bitcount_two_pow (n : Nat) : bitcount (2 ^ n) = ⟨1, n + 1⟩ := by
  induction n with
  | zero => rfl
  | succ n ih =>
      have hhalf : 2 ^ (n + 1) / 2 = 2 ^ n := by
        rw [Nat.pow_succ]
        exact Nat.mul_div_cancel _ Nat.two_pos
      have heven : 2 ^ (n + 1) % 2 = 0 := by
        rw [Nat.pow_succ]
        exact Nat.mul_mod_left _ _
      rw [bitcount_of_pos (Nat.two_pow_pos _), hhalf, ih, Nat.and_one_is_mod, heven]
      rfl

/-- Exactly the one-bit masks count one bit. -/
theorem bitcount_value_eq_one_iff (x : Nat) :
    (bitcount x).value = 1 ↔ ∃ n, x = 2 ^ n := by
  constructor
  · induction x using Nat.strong_induction_on with
    | h x ih =>
        intro hone
        rcases Nat.eq_zero_or_pos x with rfl | hx
        · simp [bitcount_zero] at hone
        · rw [bitcount_of_pos hx, Nat.and_one_is_mod] at hone
          rcases Nat.mod_two_eq_zero_or_one x with heven | hodd
          · simp only [heven, ne_eq, not_true_eq_false, ↓reduceIte] at hone
            obtain ⟨n, hn⟩ := ih (x / 2) (by omega) hone
            exact ⟨n + 1, by rw [Nat.pow_succ, ← hn]; omega⟩
          · simp only [hodd, ne_eq, one_ne_zero, not_false_eq_true, ↓reduceIte,
              Nat.add_eq_right] at hone
            have hhalf := (bitcount_value_eq_zero_iff _).mp hone
            exact ⟨0, by rw [Nat.pow_zero]; omega⟩
  · rintro ⟨n, rfl⟩
    rw [bitcount_two_pow]

end OpenMptl
