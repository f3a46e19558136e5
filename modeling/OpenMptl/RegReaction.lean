/-
Reactions of the simulation to register writes.  The new state of a field is
judged with `test()`, the old one with the bits that it shares with the
constant; what is reported is the transition of the tested condition where the
two agree on the old content.
-/
import OpenMptl.CallSequence
import OpenMptl.RegvalTest
import OpenMptl.SimAccess

namespace OpenMptl

/-- The members of `reg_reaction`; the old value is a `uint32_t`. -/
structure RegReaction where
  addr : Nat
  oldValue : Nat

/-- The types with a `value`: fields and their constants. -/
inductive FieldType (T : Target)
  | regbits (f : Regbits T)
  | regval (t : Regval T)

def FieldType.toRegmask {T : Target} : FieldType T → Regmask
  | .regbits f => f.toRegmask
  | .regval t => t.toRegmask

/-- `Tp::value` -/
def FieldType.value {T : Target} (tp : FieldType T) : Nat := tp.toRegmask.setMask

namespace RegReaction

variable {T : Target} (cfg : BitbandConfig)

def bitsSet (x : RegReaction) (tp : FieldType T) (s : Option RegFile) :
    Bool × Option RegFile :=
  if tp.toRegmask.reg.addr ≠ x.addr then (false, s)
  else
    let (test, s) := tp.toRegmask.test simAccess cfg s
    (test && decide (x.oldValue &&& tp.value = 0), s)

def bitsCleared (x : RegReaction) (tp : FieldType T) (s : Option RegFile) :
    Bool × Option RegFile :=
  if tp.toRegmask.reg.addr ≠ x.addr then (false, s)
  else if x.oldValue &&& tp.value = 0 then (false, s)
  else
    let (test, s) := tp.toRegmask.test simAccess cfg s
    (!test, s)

variable {x : RegReaction} {tp : FieldType T}

theorem bitsSet_eq (h : tp.toRegmask.reg.addr = x.addr) (s : Option RegFile) :
    (x.bitsSet cfg tp s).1 = ((tp.toRegmask.test simAccess cfg s).1 &&
      decide (x.oldValue &&& tp.value = 0)) := by
  rw [bitsSet, if_neg (not_not.mpr h)]

theorem bitsCleared_eq (h : tp.toRegmask.reg.addr = x.addr) (s : Option RegFile) :
    (x.bitsCleared cfg tp s).1 = (decide (x.oldValue &&& tp.value ≠ 0) &&
      !(tp.toRegmask.test simAccess cfg s).1) := by
  rw [bitsCleared, if_neg (not_not.mpr h)]
  by_cases hshared : x.oldValue &&& tp.value = 0
  · rw [if_pos hshared, decide_eq_false (not_not.mpr hshared), Bool.false_and]
  · rw [if_neg hshared, decide_eq_true hshared, Bool.true_and]

end RegReaction

/-- `store_impl()` up to the call of `react()`. -/
def storeImpl (r : Reg) (value : Nat) (f : RegFile) : RegReaction × RegFile :=
  (⟨r.addr, f.value r % 2 ^ 32⟩, f.store r value)

namespace FieldType

variable {T : Target} (cfg : BitbandConfig) (tp : FieldType T)

/-- `Tp::test()` on the simulated registers. -/
def test (f : RegFile) : Bool := (tp.toRegmask.test simAccess cfg (some f)).1

/-- The result depends on the register of the field only. -/
theorem test_congr {f g : RegFile}
    (h : f.value tp.toRegmask.reg = g.value tp.toRegmask.reg) :
    tp.test cfg f = tp.test cfg g := by
  simp only [test, Regmask.test, simAccess, Option.bind_some, Option.map_some,
    Option.getD_some, h]
  generalize simBittest _ _ _ = bit
  cases bit <;> split_ifs <;> rfl

/-- What a store reports about the field: `bits_set` and `bits_cleared`. -/
def reported (f : RegFile) (value : Nat) : Bool × Bool :=
  let (reaction, g) := storeImpl tp.toRegmask.reg value f
  ((reaction.bitsSet cfg tp (some g)).1, (reaction.bitsCleared cfg tp (some g)).1)

/-- Entry into and exit from the tested condition. -/
def transition (f : RegFile) (value : Nat) : Bool × Bool :=
  let (_, g) := storeImpl tp.toRegmask.reg value f
  (!tp.test cfg f && tp.test cfg g, tp.test cfg f && !tp.test cfg g)

/-- What is observed of each store in a sequence. -/
def along {ω : Type} (observe : RegFile → Nat → ω) (f : RegFile) (values : List Nat) :
    List ω :=
  (callAll (fun f value => (observe f value, (storeImpl tp.toRegmask.reg value f).2))
    f values).1

/-- The contents before the stores of a sequence. -/
def contents (f : RegFile) (values : List Nat) : List RegFile :=
  tp.along (fun f _ => f) f values

/-- `test()` and the shared bits agree on a content. -/
def Agrees (f : RegFile) : Prop :=
  f.value tp.toRegmask.reg % 2 ^ 32 &&& tp.value ≠ 0 ↔ tp.test cfg f = true

theorem judged_iff (old new : Bool) (shared : Nat) :
    (new && decide (shared = 0), decide (shared ≠ 0) && !new) = (!old && new, old && !new) ↔
      (shared ≠ 0 ↔ old = true) := by
  cases old <;> cases new <;> simp

theorem reported_eq_transition_iff (f : RegFile) (value : Nat) :
    tp.reported cfg f value = tp.transition cfg f value ↔ tp.Agrees cfg f := by
  have haddr : tp.toRegmask.reg.addr = (storeImpl tp.toRegmask.reg value f).1.addr := rfl
  have hreported : tp.reported cfg f value =
      (tp.test cfg (f.store tp.toRegmask.reg value) &&
          decide (f.value tp.toRegmask.reg % 2 ^ 32 &&& tp.value = 0),
        decide (f.value tp.toRegmask.reg % 2 ^ 32 &&& tp.value ≠ 0) &&
          !tp.test cfg (f.store tp.toRegmask.reg value)) :=
    Prod.ext (RegReaction.bitsSet_eq cfg haddr _) (RegReaction.bitsCleared_eq cfg haddr _)
  rw [hreported]
  exact judged_iff _ _ _

theorem along_eq_iff {ω : Type} (observe expect : RegFile → Nat → ω)
    {good : RegFile → Prop} (h : ∀ f value, observe f value = expect f value ↔ good f)
    (f : RegFile) (values : List Nat) :
    tp.along observe f values = tp.along expect f values ↔
      ∀ g ∈ tp.contents f values, good g := by
  induction values generalizing f with
  | nil => simp [along, contents]
  | cons value values ih =>
      have hrest := ih (f.store tp.toRegmask.reg value)
      simp only [along, contents, callAll_cons, List.cons.injEq, List.mem_cons,
        forall_eq_or_imp, storeImpl, h] at hrest ⊢
      rw [hrest]

/-! What the agreement means for the field and the constant. -/

def field : FieldType T → Regbits T
  | .regbits f => f
  | .regval t => t.field

/-- The bits of the field in `value`. -/
def constant : FieldType T → Nat
  | .regbits f => 2 ^ f.maskWidth - 1
  | .regval t => t.constant

/-- The field is seen by a `uint32_t`, and its bits by an `int` mask. -/
def Low : Prop := tp.field.reg.width ≤ 32 ∨ tp.field.offset + tp.field.maskWidth ≤ 31

variable {tp} {f : RegFile}

theorem reg_eq (tp : FieldType T) : tp.toRegmask.reg = tp.field.reg := by
  cases tp <;> rfl

theorem clearMask_eq (tp : FieldType T) : tp.toRegmask.clearMask = tp.field.clearMask := by
  cases tp <;> rfl

theorem value_eq (h : tp.constant < 2 ^ tp.field.width) :
    tp.value = tp.constant <<< tp.field.offset := by
  cases tp with
  | regbits f =>
      apply bits_injective
      rw [constant, field, bits_ones_shiftLeft, ← f.bits_clearMask]
      rfl
  | regval t => exact t.field.valueFrom_eq h

theorem constant_lt (h : tp.constant < 2 ^ tp.field.width) :
    tp.constant < 2 ^ tp.field.maskWidth := by
  cases tp with
  | regbits f => exact Nat.sub_one_lt (Nat.two_pow_pos f.maskWidth).ne'
  | regval t => exact t.constant_lt h

theorem holds_iff (h : tp.constant < 2 ^ tp.field.width) (v : Nat) :
    tp.toRegmask.holds v = true ↔
      if tp.constant + 1 = 2 ^ tp.field.maskWidth then tp.field.masked v ≠ 0
      else tp.field.masked v = tp.constant := by
  cases tp with
  | regbits f =>
      have hones : 2 ^ f.maskWidth - 1 + 1 = 2 ^ f.maskWidth :=
        Nat.sub_add_cancel Nat.one_le_two_pow
      rw [constant, field, if_pos hones]
      exact f.holds_iff v
  | regval t => exact t.holds_iff h v

theorem low_fits (h : tp.Low) : tp.field.offset + tp.field.maskWidth ≤ 32 := by
  have hfits := tp.field.fits
  have hle := tp.field.maskWidth_le
  rcases h with hnarrow | hlow <;> omega

/-- The simulated `test()` of a low field. -/
theorem test_eq_holds (h : tp.Low) :
    tp.test cfg f = tp.toRegmask.holds (f.value tp.toRegmask.reg) := by
  refine Regmask.test_eq_holds cfg rfl fun n hn => ?_
  have hmem : n ∈ fieldBits tp.field.offset tp.field.maskWidth := by
    rw [← tp.field.bits_clearMask, ← clearMask_eq, hn, bits_two_pow]
    rfl
  have hlt := Regmask.lt_width_of_clearMask hn
  rw [mem_fieldBits] at hmem
  have hsign : tp.toRegmask.reg.width ≤ 32 ∨ n ≤ 30 := by
    rw [reg_eq]
    rcases h with hnarrow | hlow
    · exact .inl hnarrow
    · exact .inr (by omega)
  rw [simAccess_bittest hlt hsign]

/-- The old state is judged rightly for all fields, and for a constant unless the
content shares bits with it without being equal. -/
theorem agrees_iff (h : tp.constant < 2 ^ tp.field.width) (hlow : tp.Low) :
    tp.Agrees cfg f ↔ tp.constant + 1 = 2 ^ tp.field.maskWidth ∨
      if tp.constant = 0 then tp.field.masked (f.value tp.field.reg) ≠ 0
      else tp.field.masked (f.value tp.field.reg) = tp.constant ∨
        tp.field.masked (f.value tp.field.reg) &&& tp.constant = 0 := by
  have hshared : f.value tp.toRegmask.reg % 2 ^ 32 &&& tp.value ≠ 0 ↔
      tp.field.masked (f.value tp.field.reg) &&& tp.constant ≠ 0 := by
    rw [value_eq h, and_shiftLeft_ne_zero_iff (constant_lt h),
      fieldOf_mod_two_pow (low_fits hlow), reg_eq]
    rfl
  have hlt := constant_lt h
  have hmasked : tp.field.masked (f.value tp.field.reg) < 2 ^ tp.field.maskWidth :=
    fieldOf_lt _ _ _
  rw [Agrees, hshared, test_eq_holds cfg hlow, holds_iff h, reg_eq]
  generalize tp.field.masked (f.value tp.field.reg) = masked at *
  by_cases hones : tp.constant + 1 = 2 ^ tp.field.maskWidth
  · -- the all-ones constant shares a bit with every value but 0
    have hand : masked &&& tp.constant = masked := by
      rw [Nat.eq_sub_of_add_eq hones]
      exact Nat.and_two_pow_sub_one_of_lt_two_pow hmasked
    simp only [hones, hand, ↓reduceIte, true_or, iff_self]
  · rw [if_neg hones, or_iff_right hones]
    by_cases hzero : tp.constant = 0
    · rw [if_pos hzero, hzero, Nat.and_zero]
      simp
    · rw [if_neg hzero]
      by_cases heq : masked = tp.constant
      · simp [heq, hzero]
      · simp [heq]

end FieldType

/-- The reports of a store are the transitions of `test()` exactly when the old
content is judged alike in both ways. -/
theorem regReaction_reports_iff {T : Target} (cfg : BitbandConfig) (tp : FieldType T) :
    (∀ f value, tp.reported cfg f value = tp.transition cfg f value ↔ tp.Agrees cfg f) ∧
    (∀ f values, tp.along (tp.reported cfg) f values = tp.along (tp.transition cfg) f values ↔
      ∀ g ∈ tp.contents f values, tp.Agrees cfg g) ∧
    (tp.constant < 2 ^ tp.field.width → tp.Low → ∀ f,
      tp.Agrees cfg f ↔ tp.constant + 1 = 2 ^ tp.field.maskWidth ∨
        if tp.constant = 0 then tp.field.masked (f.value tp.field.reg) ≠ 0
        else tp.field.masked (f.value tp.field.reg) = tp.constant ∨
          tp.field.masked (f.value tp.field.reg) &&& tp.constant = 0) :=
  ⟨tp.reported_eq_transition_iff cfg,
    tp.along_eq_iff _ _ (tp.reported_eq_transition_iff cfg),
    fun h hlow _ => FieldType.agrees_iff cfg h hlow⟩

namespace RegReactionTest

open RegvalTest

/-- `PPRE1` holds DIV4. -/
def dividedByFour : RegFile := ⟨fun r => if r = cfgr then 5 <<< 10 else 0, by
  intro r
  split
  · next h => rw [h]; decide
  · exact Nat.two_pow_pos _⟩

/-- The step from DIV4 to DIV2 enters DIV2, and nothing is reported. -/
theorem regReaction_entry_not_reported :
    (FieldType.regval div2).reported .automatic dividedByFour (4 <<< 10) ≠
      (FieldType.regval div2).transition .automatic dividedByFour (4 <<< 10) := by
  decide

end RegReactionTest

end OpenMptl
