/-
What the member functions of a regmask do to a register file.  Every command
acts on the content of one register, so in a sequence of commands each register
sees exactly the commands on it, in their order.
-/
import OpenMptl.Reglist

namespace OpenMptl

open Patch

/-- A command on one register: the content goes through `content`, the other
registers are kept, and the bus sees that register only, and only if the command
is `active`. -/
structure Acts (command : Bus → Bus) (r : Reg) (content : Set Nat → Set Nat)
    (active : Prop) : Prop where
  becomes : ∀ b : Bus,
    b.file.Becomes (command b).file r (content (bits (b.file.value r)))
  touches : ∀ b, ∃ seen, (command b).accesses = b.accesses ++ seen ∧
    ∀ a ∈ seen, a.reg = r ∧ active

theorem Acts.congr {command : Bus → Bus} {r : Reg} {f g : Set Nat → Set Nat}
    {active : Prop} (h : Acts command r f active) (hfg : ∀ v, f v = g v) :
    Acts command r g active := by
  have heq : f = g := funext hfg
  exact heq ▸ h

theorem Acts.skip (r : Reg) (active : Prop) : Acts (fun b => b) r (fun v => v) active where
  becomes _ := ⟨rfl, fun _ _ => rfl⟩
  touches _ := ⟨[], by simp, by simp⟩

theorem Reg.setClear_acts (r : Reg) {setMask : Nat} (hset : setMask < 2 ^ r.width)
    (clearMask : Nat) {active : Prop} (hactive : active) :
    Acts (r.setClear busAccess setMask clearMask) r
      (fun v => v \ bits clearMask ∪ bits setMask) active where
  becomes b := r.setClear_becomes hset clearMask b
  touches b := by
    refine ⟨_, List.append_assoc b.accesses [.load r] _, ?_⟩
    simp [Access.reg, hactive]

theorem Reg.clear_acts (r : Reg) (clearMask : Nat) {active : Prop} (hactive : active) :
    Acts (r.clear busAccess clearMask) r (fun v => v \ bits clearMask) active where
  becomes b := r.clear_becomes clearMask b
  touches b := by
    refine ⟨_, List.append_assoc b.accesses [.load r] _, ?_⟩
    simp [Access.reg, hactive]

theorem store_acts (r : Reg) {value : Nat} (hvalue : value < 2 ^ r.width)
    {active : Prop} (hactive : active) :
    Acts (busAccess.store r value) r (fun _ => bits value) active where
  becomes b := b.file.store_becomes r hvalue
  touches b := by
    refine ⟨_, rfl, ?_⟩
    simp [Access.reg, hactive]

theorem bitset_acts (r : Reg) {n : Nat} (hn : 2 ^ n < 2 ^ r.width) {active : Prop}
    (hactive : active) :
    Acts (busAccess.bitset r n) r (fun v => v ∪ {n}) active where
  becomes b := by
    have h := b.file.store_becomes r (Nat.or_lt_two_pow (b.file.value_lt r) hn)
    rw [bits_or, bits_two_pow] at h
    exact h
  touches b := by
    refine ⟨[.bitset r n], by simp [busAccess], ?_⟩
    simp [Access.reg, hactive]

theorem bitclear_acts (r : Reg) (n : Nat) {active : Prop} (hactive : active) :
    Acts (busAccess.bitclear r n) r (fun v => v \ {n}) active where
  becomes b := by
    have hv := b.file.value_lt r
    have h := b.file.store_becomes r (and_bitNot_lt hv (2 ^ n))
    rw [bits_and_bitNot hv, bits_two_pow] at h
    exact h
  touches b := by
    refine ⟨[.bitclear r n], by simp [busAccess], ?_⟩
    simp [Access.reg, hactive]

namespace Regmask

theorem setMask_eq_zero {t : Regmask} (h : t.clearMask = 0) : t.setMask = 0 := by
  have hcovers := t.covers
  rwa [h, Nat.or_zero] at hcovers

theorem bits_croppedClearMask (t : Regmask) :
    bits t.croppedClearMask = t.patch.clear \ t.patch.set :=
  bits_and_bitNot t.clearMask_lt t.setMask

/-- The bit shortcut is taken on one-bit masks only, with the index of the bit. -/
theorem exists_bit_of_bitopEnabled {t : Regmask} (h : t.bitopEnabled = true) :
    ∃ n, t.clearMask = 2 ^ n ∧ (bitcount t.clearMask).significantBits - 1 = n := by
  simp only [bitopEnabled, Bool.and_eq_true, beq_iff_eq] at h
  obtain ⟨n, hn⟩ := (bitcount_value_eq_one_iff t.clearMask).mp h.2
  exact ⟨n, hn, by rw [hn, bitcount_two_pow]; rfl⟩

theorem bitopEnabled_of_clearMask_eq_zero {t : Regmask} (h : t.clearMask = 0) :
    t.bitopEnabled = false := by
  simp [bitopEnabled, h, bitcount_zero]

/-- Empty masks cause no access, whatever the access functions do. -/
theorem set_of_clearMask_eq_zero {σ : Type} (A : RegAccess σ) (cfg : BitbandConfig)
    {t : Regmask} (h : t.clearMask = 0) (s : σ) : t.set A cfg s = s := by
  simp [set, bitopEnabled_of_clearMask_eq_zero h, h, setMask_eq_zero h]

theorem clear_of_clearMask_eq_zero {σ : Type} (A : RegAccess σ) (cfg : BitbandConfig)
    {t : Regmask} (h : t.clearMask = 0) (s : σ) : t.clear A cfg s = s := by
  simp [clear, bitopEnabled_of_clearMask_eq_zero h, h]

/-- `set()` applies the patch, on every path. -/
theorem set_acts (t : Regmask) (cfg : BitbandConfig) :
    Acts (t.set busAccess cfg) t.reg t.patch.apply (t.clearMask ≠ 0) := by
  by_cases hzero : t.clearMask = 0
  · have hskip : t.set busAccess cfg = fun b => b :=
      funext (set_of_clearMask_eq_zero busAccess cfg hzero)
    rw [hskip]
    refine (Acts.skip t.reg _).congr fun v => ?_
    simp [Patch.apply, hzero, setMask_eq_zero hzero]
  · by_cases hbit : (!cfg.disableWrite && (t.bitopEnabled && t.setMask == t.clearMask)) = true
    · have hset : t.set busAccess cfg =
          busAccess.bitset t.reg ((bitcount t.clearMask).significantBits - 1) := by
        funext b
        simp only [set, hbit, ↓reduceIte]
      simp only [Bool.and_eq_true, beq_iff_eq] at hbit
      obtain ⟨n, hn, hindex⟩ := exists_bit_of_bitopEnabled hbit.2.1
      rw [hset, hindex]
      refine (bitset_acts t.reg (hn ▸ t.clearMask_lt) hzero).congr fun v => ?_
      simp [Patch.apply, hbit.2.2, hn]
    · have hset : t.set busAccess cfg =
          t.reg.setClear busAccess t.setMask t.croppedClearMask := by
        funext b
        simp [set, hbit, hzero]
      rw [hset]
      refine (t.reg.setClear_acts t.setMask_lt t.croppedClearMask hzero).congr fun v => ?_
      rw [bits_croppedClearMask]
      exact t.patch.apply_eq_cropped v

theorem clear_acts (t : Regmask) (cfg : BitbandConfig) :
    Acts (t.clear busAccess cfg) t.reg (fun v => v \ t.patch.clear) (t.clearMask ≠ 0) := by
  by_cases hzero : t.clearMask = 0
  · have hskip : t.clear busAccess cfg = fun b => b :=
      funext (clear_of_clearMask_eq_zero busAccess cfg hzero)
    rw [hskip]
    refine (Acts.skip t.reg _).congr fun v => ?_
    simp [hzero]
  · by_cases hbit : (!cfg.disableWrite && t.bitopEnabled) = true
    · have hclear : t.clear busAccess cfg =
          busAccess.bitclear t.reg ((bitcount t.clearMask).significantBits - 1) := by
        funext b
        simp only [clear, hbit, ↓reduceIte]
      simp only [Bool.and_eq_true] at hbit
      obtain ⟨n, hn, hindex⟩ := exists_bit_of_bitopEnabled hbit.2
      rw [hclear, hindex]
      refine (bitclear_acts t.reg n hzero).congr fun v => ?_
      simp [hn]
    · have hclear : t.clear busAccess cfg = t.reg.clear busAccess t.clearMask := by
        funext b
        simp [clear, hbit, hzero]
      rw [hclear]
      exact t.reg.clear_acts t.clearMask hzero

/-- The value that `reset_to()` stores. -/
def resetToValue (t : Regmask) : Nat :=
  (t.reg.resetValue &&& bitNot t.reg.width t.croppedClearMask) ||| t.setMask

theorem resetToValue_lt (t : Regmask) : t.resetToValue < 2 ^ t.reg.width :=
  Nat.or_lt_two_pow (and_bitNot_lt t.reg.resetValue_lt _) t.setMask_lt

theorem bits_resetToValue (t : Regmask) :
    bits t.resetToValue = t.patch.apply (bits t.reg.resetValue) := by
  have hreset : t.reg.resetValue < 2 ^ t.reg.width := t.reg.resetValue_lt
  rw [resetToValue, bits_or, bits_and_bitNot hreset, bits_croppedClearMask]
  exact t.patch.apply_eq_cropped _

theorem resetTo_acts (t : Regmask) :
    Acts (t.resetTo busAccess) t.reg (fun _ => bits t.resetToValue) True :=
  store_acts t.reg t.resetToValue_lt trivial

theorem and_two_pow_ne_zero_iff (v n : Nat) : v &&& 2 ^ n ≠ 0 ↔ v.testBit n = true := by
  rw [ne_eq, ← bits_eq_empty_iff, bits_and, bits_two_pow, Set.inter_singleton_eq_empty,
    not_not, mem_bits]

/-- A mask inside one bit is that bit or empty. -/
theorem setMask_eq_of_ne_zero {t : Regmask} {n : Nat} (hn : t.clearMask = 2 ^ n)
    (hset : t.setMask ≠ 0) : t.setMask = t.clearMask := by
  have hsub : bits t.setMask ⊆ {n} := by
    rw [← bits_two_pow, ← hn]
    exact t.patch.set_le
  rcases Set.subset_singleton_iff_eq.mp hsub with hempty | hsingle
  · exact absurd ((bits_eq_empty_iff _).mp hempty) hset
  · exact bits_injective (by rw [hsingle, hn, bits_two_pow])

theorem lt_width_of_clearMask {t : Regmask} {n : Nat} (hn : t.clearMask = 2 ^ n) :
    n < t.reg.width := by
  have hlt := t.clearMask_lt
  rw [hn] at hlt
  exact (Nat.pow_lt_pow_iff_right (by omega)).mp hlt

/-- What `test()` says about a register content. -/
def holds (t : Regmask) (v : Nat) : Bool :=
  if t.clearMask = 0 then false
  else if t.clearMask = t.setMask then decide (v &&& t.clearMask ≠ 0)
  else decide (v &&& t.clearMask = t.setMask)

/-- On a one-bit mask both ways of reading agree, if the access functions do. -/
theorem test_eq_holds {σ : Type} {A : RegAccess σ} (cfg : BitbandConfig) {t : Regmask}
    {v : Nat} {s : σ} (hload : (A.load t.reg s).1 = v)
    (hbit : ∀ n, t.clearMask = 2 ^ n → (A.bittest t.reg n s).1 = v.testBit n) :
    (t.test A cfg s).1 = t.holds v := by
  by_cases hzero : t.clearMask = 0
  · simp [test, holds, hzero]
  · by_cases hpath : (!cfg.disableRead && t.bitopEnabled) = true
    · simp only [Bool.and_eq_true] at hpath
      obtain ⟨n, hn, hindex⟩ := exists_bit_of_bitopEnabled hpath.2
      have hand := and_two_pow_ne_zero_iff v n
      by_cases hset : t.setMask = 0
      · -- the bit is inverted when the mask asks for a zero
        have hauto : (t.test A cfg s).1 = !(A.bittest t.reg n s).1 := by
          rw [← hindex]
          simp [test, hzero, hpath.1, hpath.2, hset]
        have hne : ¬ t.clearMask = t.setMask := fun heq => hzero (heq.trans hset)
        rw [hauto, hbit n hn, holds, if_neg hzero, if_neg hne, hset, hn]
        cases hb : v.testBit n <;> simpa [hb] using hand
      · have hauto : (t.test A cfg s).1 = (A.bittest t.reg n s).1 := by
          rw [← hindex]
          simp [test, hzero, hpath.1, hpath.2, hset]
        have heq := setMask_eq_of_ne_zero hn hset
        rw [hauto, hbit n hn, holds, if_neg hzero, if_pos heq.symm, hn]
        exact Bool.eq_iff_iff.mpr (hand.symm.trans (by simp))
    · have hnot : ∀ b, (!cfg.disableRead && (t.bitopEnabled && b)) = false := by
        intro b
        rw [← Bool.and_assoc, Bool.eq_false_of_not_eq_true hpath, Bool.false_and]
      by_cases heq : t.clearMask = t.setMask
      · have hset : t.setMask ≠ 0 := heq ▸ hzero
        simp [test, holds, hset, hnot, hload, heq]
      · simp [test, holds, hzero, hnot, hload, heq]

/-- `test()` on the register file. -/
theorem test_busAccess (t : Regmask) (cfg : BitbandConfig) (b : Bus) :
    (t.test busAccess cfg b).1 = t.holds (b.file.value t.reg) :=
  test_eq_holds cfg rfl fun _ _ => rfl

end Regmask

/-! Sequences of commands, one for each element of a list. -/

/-- The elements on one register, in the order of the list. -/
def onReg (ts : List RegmaskType) (r : Reg) : List RegmaskType :=
  ts.filter (filterRegType r)

theorem mem_onReg {ts : List RegmaskType} {r : Reg} {t : RegmaskType} :
    t ∈ onReg ts r ↔ t ∈ ts ∧ t.reg = r := by
  simp [onReg, filterRegType, eq_comm]

theorem onReg_cons_of_eq (t : RegmaskType) (ts : List RegmaskType) :
    onReg (t :: ts) t.reg = t :: onReg ts t.reg := by
  simp [onReg, filterRegType]

theorem onReg_cons_of_ne {t : RegmaskType} {r : Reg} (h : t.reg ≠ r)
    (ts : List RegmaskType) : onReg (t :: ts) r = onReg ts r := by
  simp [onReg, filterRegType, h.symm]

/-- Run commands from left to right. -/
def runAll (commands : List (Bus → Bus)) (b : Bus) : Bus :=
  commands.foldl (fun b command => command b) b

@[simp] theorem runAll_nil (b : Bus) : runAll [] b = b := rfl

@[simp] theorem runAll_cons (command : Bus → Bus) (commands : List (Bus → Bus)) (b : Bus) :
    runAll (command :: commands) b = runAll commands (command b) := rfl

section Runs

variable {content : RegmaskType → Set Nat → Set Nat} {active : RegmaskType → Prop}
  {ts : List RegmaskType} {commands : List (Bus → Bus)}

/-- After a run each register has gone through the commands on it. -/
theorem bits_runAll
    (h : List.Forall₂ (fun t c => Acts c t.reg (content t) (active t)) ts commands)
    (b : Bus) (r : Reg) :
    bits ((runAll commands b).file.value r) =
      (onReg ts r).foldl (fun v t => content t v) (bits (b.file.value r)) := by
  induction h generalizing b with
  | nil => simp [onReg]
  | @cons t c ts commands hc _ ih =>
      obtain ⟨hsame, hother⟩ := hc.becomes b
      rw [runAll_cons, ih]
      by_cases hr : t.reg = r
      · subst hr
        rw [onReg_cons_of_eq, List.foldl_cons, hsame]
      · rw [onReg_cons_of_ne hr, hother r (Ne.symm hr)]

/-- Every access of a run belongs to an active element. -/
theorem accesses_runAll
    (h : List.Forall₂ (fun t c => Acts c t.reg (content t) (active t)) ts commands)
    (b : Bus) :
    ∃ seen, (runAll commands b).accesses = b.accesses ++ seen ∧
      ∀ a ∈ seen, ∃ t ∈ ts, a.reg = t.reg ∧ active t := by
  induction h generalizing b with
  | nil => exact ⟨[], by simp, by simp⟩
  | @cons t c ts commands hc _ ih =>
      obtain ⟨first, hfirst, hfirstReg⟩ := hc.touches b
      obtain ⟨rest, hrest, hrestReg⟩ := ih (c b)
      refine ⟨first ++ rest, by rw [runAll_cons, hrest, hfirst, List.append_assoc], ?_⟩
      intro a ha
      rcases List.mem_append.mp ha with ha | ha
      · exact ⟨t, List.mem_cons_self, hfirstReg a ha⟩
      · obtain ⟨u, hu, hau⟩ := hrestReg a ha
        exact ⟨u, List.mem_cons_of_mem t hu, hau⟩

end Runs

end OpenMptl
