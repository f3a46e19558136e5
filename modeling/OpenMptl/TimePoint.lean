/-
Points in time of the demo: a count of systick interrupts together with the
systick counter, which counts down from the reload value.  All arithmetic is in
`unsigned` of 32 bits.
-/
import OpenMptl.DownRadix

namespace OpenMptl

/-- The constants of `systick<>` that a time point depends on. -/
structure SystickConstants where
  reloadValue : BitVec 32
  psPerTick : BitVec 32
deriving DecidableEq

/-- `systick<clock_source_type>`, for the frequencies of the clock source. -/
def systickConstants (freq counterFreq : BitVec 32) : SystickConstants where
  reloadValue := counterFreq / freq
  psPerTick := 1000 * 1000 * 1000 / (counterFreq / 1000)

/-- The members of `TimePoint`. -/
structure TimePoint where
  systick : BitVec 32
  /-- "note: counter decreases in time" -/
  counter : BitVec 32
deriving DecidableEq, Repr

/-- The ticks that `add_ns()` adds, "always rounded up". -/
def SystickConstants.counterTicks (k : SystickConstants) (ns : BitVec 32) : BitVec 32 :=
  ns * 1000 / k.psPerTick + 1

namespace TimePoint

variable (k : SystickConstants)

def addNs (ns : BitVec 32) (tp : TimePoint) : TimePoint :=
  let counterTicks := k.counterTicks ns
  let systick := tp.systick + counterTicks / k.reloadValue
  let waitFrac := counterTicks % k.reloadValue
  if waitFrac > tp.counter then ⟨systick + 1, tp.counter + k.reloadValue - waitFrac⟩
  else ⟨systick, tp.counter - waitFrac⟩

/-- `operator<` -/
def lt (a b : TimePoint) : Bool :=
  if a.systick < b.systick then true
  else if a.systick > b.systick then false
  else if a.counter > b.counter then true
  else false

/-- `TimePointDiff(tp1, tp2)` -/
def diff (tp1 tp2 : TimePoint) : TimePoint :=
  let systick := tp1.systick - tp2.systick
  let c1 := k.reloadValue - tp1.counter
  let c2 := k.reloadValue - tp2.counter
  if c1 > c2 then ⟨systick, k.reloadValue - (c1 - c2)⟩
  else ⟨systick - 1, c2 - c1⟩

/-- The counter is a value that the systick counter takes. -/
def InPeriod (tp : TimePoint) : Prop := tp.counter ≤ k.reloadValue

instance (tp : TimePoint) : Decidable (tp.InPeriod k) :=
  inferInstanceAs (Decidable (tp.counter ≤ k.reloadValue))

/-- The counter ticks up to a time point. -/
def ticks (tp : TimePoint) : ℤ :=
  DownRadix.value k.reloadValue.toNat tp.systick.toNat tp.counter.toNat

variable {k}

theorem modEq_toNat_add (x y : BitVec 32) :
    ((x + y).toNat : ℤ) ≡ x.toNat + y.toNat [ZMOD 2 ^ 32] := by
  rw [BitVec.toNat_add, Int.natCast_mod]
  exact Int.mod_modEq _ _

theorem modEq_toNat_sub (x y : BitVec 32) :
    ((x - y).toNat : ℤ) ≡ x.toNat - y.toNat [ZMOD 2 ^ 32] := by
  have hy := y.isLt
  rw [BitVec.toNat_sub, Int.natCast_mod, Nat.cast_add, Nat.cast_sub hy.le]
  refine (Int.mod_modEq _ _).trans ?_
  rw [Int.modEq_iff_dvd]
  exact ⟨-1, by push_cast; ring⟩

theorem cast_toNat_sub_of_le {x y : BitVec 32} (h : y.toNat ≤ x.toNat) :
    ((x - y).toNat : ℤ) = x.toNat - y.toNat := by
  rw [BitVec.toNat_sub_of_le h, Nat.cast_sub h]

/-- Quotient and remainder by the reload value make up the ticks. -/
theorem counterTicks_eq (ns : BitVec 32) :
    ((k.counterTicks ns).toNat : ℤ) =
      (k.counterTicks ns / k.reloadValue).toNat * k.reloadValue.toNat +
        (k.counterTicks ns % k.reloadValue).toNat := by
  rw [BitVec.toNat_udiv, BitVec.toNat_umod]
  exact_mod_cast (Nat.div_add_mod' _ _).symm

theorem waitFrac_toNat_lt (hbase : 1 ≤ k.reloadValue) (ns : BitVec 32) :
    (k.counterTicks ns % k.reloadValue).toNat < k.reloadValue.toNat := by
  rw [BitVec.toNat_umod]
  exact Nat.mod_lt _ hbase

/-- The counter after a borrow, which `unsigned` arithmetic reaches around the wrap. -/
theorem toNat_borrow {counter base frac : BitVec 32} (hcarry : counter.toNat < frac.toNat)
    (hfrac : frac.toNat < base.toNat) :
    ((counter + base - frac).toNat : ℤ) = counter.toNat + base.toNat - frac.toNat := by
  have hlt := base.isLt
  rw [BitVec.toNat_sub, BitVec.toNat_add]
  omega

theorem addNs_spec (hbase : 1 ≤ k.reloadValue) {tp : TimePoint} (h : tp.InPeriod k)
    (ns : BitVec 32) :
    (tp.addNs k ns).InPeriod k ∧
      (tp.addNs k ns).ticks k ≡ tp.ticks k + (k.counterTicks ns).toNat
        [ZMOD k.reloadValue.toNat * 2 ^ 32] := by
  have hfrac := waitFrac_toNat_lt hbase ns
  have hticks := @counterTicks_eq k ns
  have hquot := modEq_toNat_add tp.systick (k.counterTicks ns / k.reloadValue)
  simp only [addNs]
  generalize k.counterTicks ns / k.reloadValue = quot at *
  generalize k.counterTicks ns % k.reloadValue = frac at *
  rw [hticks]
  have hcounter : tp.counter.toNat ≤ k.reloadValue.toNat := h
  simp only [InPeriod, ticks, BitVec.le_def]
  split
  · next hcarry =>
      -- the counter borrows a period
      have hcarry : tp.counter.toNat < frac.toNat := hcarry
      have hlow := toNat_borrow hcarry hfrac
      have hhigh := (modEq_toNat_add (tp.systick + quot) 1).trans (hquot.add_right _)
      have hone : ((1 : BitVec 32).toNat : ℤ) = 1 := rfl
      have hperiod : (tp.counter + k.reloadValue - frac).toNat ≤ k.reloadValue.toNat := by omega
      refine ⟨hperiod, (DownRadix.value_modEq hhigh).trans ?_⟩
      rw [hlow, DownRadix.value_sub_low, hone, DownRadix.value_borrow,
        DownRadix.value_add_high, add_assoc]
  · next hcarry =>
      have hlow := cast_toNat_sub_of_le (Nat.not_lt.mp hcarry)
      have hperiod : (tp.counter - frac).toNat ≤ k.reloadValue.toNat := by omega
      refine ⟨hperiod, (DownRadix.value_modEq hquot).trans ?_⟩
      rw [hlow, DownRadix.value_sub_low, DownRadix.value_add_high, add_assoc]

theorem counterTicks_toNat {ns : BitVec 32} (hns : 1000 * ns.toNat < 2 ^ 32) :
    (k.counterTicks ns).toNat = 1000 * ns.toNat / k.psPerTick.toNat + 1 := by
  have hquot := Nat.div_le_self (1000 * ns.toNat) k.psPerTick.toNat
  have hthousand : (1000 : BitVec 32).toNat = 1000 := rfl
  have hone : (1 : BitVec 32).toNat = 1 := rfl
  rw [SystickConstants.counterTicks, BitVec.toNat_add, BitVec.toNat_udiv, BitVec.toNat_mul,
    hthousand, hone, Nat.mul_comm ns.toNat, Nat.mod_eq_of_lt hns]
  exact Nat.mod_eq_of_lt (by omega)

theorem diff_spec {a b : TimePoint} (ha : a.InPeriod k) (hb : b.InPeriod k) :
    (diff k a b).InPeriod k ∧
      (diff k a b).ticks k ≡ a.ticks k - b.ticks k [ZMOD k.reloadValue.toNat * 2 ^ 32] := by
  have hhigh := modEq_toNat_sub a.systick b.systick
  have ha : a.counter.toNat ≤ k.reloadValue.toNat := ha
  have hb : b.counter.toNat ≤ k.reloadValue.toNat := hb
  have hlt := k.reloadValue.isLt
  have hc1 : (k.reloadValue - a.counter).toNat = k.reloadValue.toNat - a.counter.toNat :=
    BitVec.toNat_sub_of_le ha
  have hc2 : (k.reloadValue - b.counter).toNat = k.reloadValue.toNat - b.counter.toNat :=
    BitVec.toNat_sub_of_le hb
  simp only [InPeriod, ticks, diff, BitVec.le_def, gt_iff_lt, BitVec.lt_def, hc1, hc2]
  rw [DownRadix.value_sub_value]
  split
  · next hlow =>
      have hcounter : (k.reloadValue - (k.reloadValue - a.counter -
          (k.reloadValue - b.counter))).toNat =
          k.reloadValue.toNat - (b.counter.toNat - a.counter.toNat) := by
        rw [BitVec.toNat_sub, BitVec.toNat_sub, hc1, hc2]
        omega
      refine ⟨by rw [hcounter]; omega, (DownRadix.value_modEq hhigh).trans ?_⟩
      have hcast : ((k.reloadValue - (k.reloadValue - a.counter -
          (k.reloadValue - b.counter))).toNat : ℤ) =
          k.reloadValue.toNat - (b.counter.toNat - a.counter.toNat) := by omega
      rw [hcast, DownRadix.value, sub_sub_cancel]
  · next hlow =>
      -- a whole period is used up, which the lower systick takes back
      have hcounter : (k.reloadValue - b.counter - (k.reloadValue - a.counter)).toNat =
          a.counter.toNat - b.counter.toNat := by
        rw [BitVec.toNat_sub, hc1, hc2]
        omega
      have hborrow := (modEq_toNat_sub (a.systick - b.systick) 1).trans (hhigh.sub_right _)
      refine ⟨by rw [hcounter]; omega, (DownRadix.value_modEq hborrow).trans ?_⟩
      have hcast : ((k.reloadValue - b.counter - (k.reloadValue - a.counter)).toNat : ℤ) =
          a.counter.toNat - b.counter.toNat := by omega
      have hone : ((1 : BitVec 32).toNat : ℤ) = 1 := rfl
      rw [hcast, hone, DownRadix.value_sub_one_sub]

theorem lt_eq_true_iff (a b : TimePoint) :
    a.lt b = true ↔ a.systick < b.systick ∨ a.systick = b.systick ∧ b.counter < a.counter := by
  unfold lt
  split
  · next h => simp [h]
  · next hnlt =>
      split
      · next hgt =>
          have hne : a.systick ≠ b.systick := fun heq => (BitVec.lt_irrefl _ (heq ▸ hgt))
          simp [hnlt, hne]
      · next hngt =>
          have heq : a.systick = b.systick :=
            BitVec.le_antisymm (BitVec.not_lt.mp hngt) (BitVec.not_lt.mp hnlt)
          simp [heq]

theorem lt_iff_ticks_lt {a b : TimePoint} (ha : a.InPeriod k) (hb : b.InPeriod k)
    (hne : a.ticks k ≠ b.ticks k) : a.lt b = true ↔ a.ticks k < b.ticks k := by
  have ha : a.counter.toNat ≤ k.reloadValue.toNat := ha
  have hb : b.counter.toNat ≤ k.reloadValue.toNat := hb
  have hdigits := DownRadix.value_lt_value_iff (by omega) (by omega) (by omega) hne
  rw [lt_eq_true_iff]
  refine Iff.trans ?_ hdigits.symm
  rw [BitVec.lt_def, BitVec.lt_def, ← BitVec.toNat_inj]
  omega

end TimePoint

/-- Time points count ticks: addition and difference are right up to the wrap of the
systick, and the comparison is the order of all different times. -/
theorem timePoint_counts_ticks (k : SystickConstants) (hbase : 1 ≤ k.reloadValue) :
    (∀ (tp : TimePoint) ns, tp.InPeriod k → (tp.addNs k ns).InPeriod k ∧
      (tp.addNs k ns).ticks k ≡ tp.ticks k + (k.counterTicks ns).toNat
        [ZMOD k.reloadValue.toNat * 2 ^ 32]) ∧
    (∀ a b : TimePoint, a.InPeriod k → b.InPeriod k → (TimePoint.diff k a b).InPeriod k ∧
      (TimePoint.diff k a b).ticks k ≡ a.ticks k - b.ticks k
        [ZMOD k.reloadValue.toNat * 2 ^ 32]) ∧
    (∀ a b : TimePoint, a.InPeriod k → b.InPeriod k → a.ticks k ≠ b.ticks k →
      (a.lt b = true ↔ a.ticks k < b.ticks k)) :=
  ⟨fun _ ns h => TimePoint.addNs_spec hbase h ns, fun _ _ => TimePoint.diff_spec,
    fun _ _ => TimePoint.lt_iff_ticks_lt⟩

namespace TimePointTest

/-- 100 Hz from a system clock of 72 MHz, divided by 8. -/
def systick100 : SystickConstants := systickConstants 100 9000000

/-- The sum borrows from the systick. -/
theorem timePoint_counts_ticks_borrow :
    TimePoint.addNs systick100 1000000 ⟨5, 3000⟩ = ⟨6, 83999⟩ ∧
      (TimePoint.addNs systick100 1000000 ⟨5, 3000⟩).ticks systick100 ≡
        (⟨5, 3000⟩ : TimePoint).ticks systick100 + 9001 [ZMOD 90000 * 2 ^ 32] := by
  have hbase : 1 ≤ systick100.reloadValue := by decide
  exact ⟨by decide, ((timePoint_counts_ticks systick100 hbase).1 _ 1000000 (by decide)).2⟩

end TimePointTest

end OpenMptl
