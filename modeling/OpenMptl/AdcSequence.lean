/-
The regular sequence of the ADC.  The channels of up to 16 conversions are spread over
three registers and the sample times of 18 channels over two; `configure()` merges the
elements, so that a channel may occur twice as long as its sample time is the same.
-/
import Mathlib.Tactic.IntervalCases
import OpenMptl.RegvalList

namespace OpenMptl

namespace Adc

/-! The registers that `configure()` resets. -/

section Registers

variable (baseAddr : Nat)

/-- `ADC_Common::CR1` -/
def cr1 : Reg := ⟨.uint32, baseAddr + 0x4, .rw, 0x00000000, ValueType.two_pow_width_pos _⟩

/-- `ADC_Common::CR2` -/
def cr2 : Reg := ⟨.uint32, baseAddr + 0x8, .rw, 0x00000000, ValueType.two_pow_width_pos _⟩

def smpr1 : Reg := ⟨.uint32, baseAddr + 0xc, .rw, 0x00000000, ValueType.two_pow_width_pos _⟩

def smpr2 : Reg := ⟨.uint32, baseAddr + 0x10, .rw, 0x00000000, ValueType.two_pow_width_pos _⟩

def sqr1 : Reg := ⟨.uint32, baseAddr + 0x2c, .rw, 0x00000000, ValueType.two_pow_width_pos _⟩

def sqr2 : Reg := ⟨.uint32, baseAddr + 0x30, .rw, 0x00000000, ValueType.two_pow_width_pos _⟩

def sqr3 : Reg := ⟨.uint32, baseAddr + 0x34, .rw, 0x00000000, ValueType.two_pow_width_pos _⟩

/-- `SMPRx<channel>::type` -/
def smprx (channel : Nat) : Reg := if channel > 9 then smpr1 baseAddr else smpr2 baseAddr

/-- `SQRx<rank>::type` -/
def sqrx (rank : Nat) : Reg :=
  if rank > 12 then sqr1 baseAddr else if rank > 6 then sqr2 baseAddr else sqr3 baseAddr

theorem smprx_width (channel : Nat) : (smprx baseAddr channel).width = 32 := by
  unfold smprx
  split <;> rfl

theorem sqrx_width (rank : Nat) : (sqrx baseAddr rank).width = 32 := by
  unfold sqrx
  split
  · rfl
  · split <;> rfl

variable (T : Target)

/-- `SMPRx<channel>::SMP` -/
def smp (channel : Nat) : Regbits T :=
  .ofLow T (smprx baseAddr channel) ((channel % 10) * 3) 3 (by rw [smprx_width]; omega)

/-- `SQRx<rank>::SQ` -/
def sq (rank : Nat) : Regbits T :=
  .ofLow T (sqrx baseAddr rank) (((rank - 1) % 6) * 5) 5 (by rw [sqrx_width]; omega)

/-- `SQR1::L` -/
def sqr1L : Regbits T :=
  .ofLow T (sqr1 baseAddr) 20 4 (by decide : 1 ≤ 4 ∧ 20 + 4 ≤ 32 ∧ 20 < 32 ∧ 4 < 32)

end Registers

/-- The arguments of `regular_channel_config_impl<>`, with its assertions. -/
structure RegularChannelConfig where
  channel : Nat
  rank : Nat
  sampleTime : Nat
  /-- "invalid channel" -/
  channel_le : channel ≤ 17
  /-- "invalid rank" -/
  rank_pos : 1 ≤ rank
  rank_le : rank ≤ 16
  /-- "invalid sample_time" -/
  sampleTime_lt : sampleTime < 8

section Traits

variable (T : Target) (baseAddr : Nat)

/-- `regular_channel_sequence_length<value>`; `enable_if` has no type for others. -/
def regularChannelSequenceLength (value : Nat) :
    Except CompileError (ListTree Element) := do
  if 1 ≤ value ∧ value ≤ 16 then
    let l ← regval (sqr1L baseAddr T) (value - 1)
    return .leaf (.regmask l.toRegmaskType)
  else .error .noMember

/-- `regular_channel_config<channel, rank, sample_time>` -/
def regularChannelConfig (c : RegularChannelConfig) : Except CompileError (ListTree Element) := do
  let smp ← regval (smp baseAddr T c.channel) c.sampleTime
  let sq ← regval (sq baseAddr T c.rank) c.channel
  return .node .reglist [.leaf (.regmask smp.toRegmaskType), .leaf (.regmask sq.toRegmaskType)]

/-- The registers of `strict_reset_to<>`. -/
def strictRegs : List Reg :=
  [cr1 baseAddr, cr2 baseAddr, smpr1 baseAddr, smpr2 baseAddr, sqr1 baseAddr, sqr2 baseAddr,
    sqr3 baseAddr]

/-- `configure<Tp...>()` -/
def configure {σ : Type} (A : RegAccess σ) (trees : List (ListTree Element)) :
    Except CompileError (σ → σ) :=
  strictResetTo A trees (strictRegs baseAddr)

end Traits

/-! The arithmetic of `SMPRx` and `SQRx` finds the fields that the registers declare. -/

section Declared

variable (baseAddr : Nat)

/-- Register and offset of `SMP0`, ..., `SMP17`. -/
def declaredSmp : List (Reg × Nat) :=
  [0, 3, 6, 9, 12, 15, 18, 21, 24, 27].map (smpr2 baseAddr, ·) ++
    [0, 3, 6, 9, 12, 15, 18, 21].map (smpr1 baseAddr, ·)

/-- Register and offset of `SQ1`, ..., `SQ16`. -/
def declaredSq : List (Reg × Nat) :=
  [0, 5, 10, 15, 20, 25].map (sqr3 baseAddr, ·) ++
    ([0, 5, 10, 15, 20, 25].map (sqr2 baseAddr, ·) ++ [0, 5, 10, 15].map (sqr1 baseAddr, ·))

theorem smp_declared (T : Target) {channel : Nat} (h : channel ≤ 17) :
    (declaredSmp baseAddr)[channel]? =
      some ((smp baseAddr T channel).reg, (smp baseAddr T channel).offset) := by
  interval_cases channel <;> rfl

theorem sq_declared (T : Target) {i : Nat} (h : i < 16) :
    (declaredSq baseAddr)[i]? =
      some ((sq baseAddr T (i + 1)).reg, (sq baseAddr T (i + 1)).offset) := by
  interval_cases i <;> rfl

end Declared

/-! The fields of the sequence are pairwise apart. -/

section Fields

variable {T : Target} {baseAddr : Nat}

theorem smprx_addr (channel : Nat) :
    (smprx baseAddr channel).addr = baseAddr + if channel > 9 then 0xc else 0x10 := by
  unfold smprx
  split <;> rfl

theorem sqrx_addr (rank : Nat) :
    (sqrx baseAddr rank).addr =
      baseAddr + if rank > 12 then 0x2c else if rank > 6 then 0x30 else 0x34 := by
  unfold sqrx
  split
  · rfl
  · split <;> rfl

theorem smp_apart_smp {c d : Nat} (hc : c ≤ 17) (hd : d ≤ 17) (hne : c ≠ d) :
    (smp baseAddr T c).Apart (smp baseAddr T d) := by
  intro hreg
  have haddr : (smprx baseAddr c).addr = (smprx baseAddr d).addr := congrArg Reg.addr hreg
  rw [smprx_addr, smprx_addr] at haddr
  apply disjoint_fieldBits
  simp only [smp, Regbits.ofLow]
  split at haddr <;> split at haddr <;> omega

theorem sq_apart_sq {i j : Nat} (hi : 1 ≤ i ∧ i ≤ 16) (hj : 1 ≤ j ∧ j ≤ 16) (hne : i ≠ j) :
    (sq baseAddr T i).Apart (sq baseAddr T j) := by
  intro hreg
  have haddr : (sqrx baseAddr i).addr = (sqrx baseAddr j).addr := congrArg Reg.addr hreg
  rw [sqrx_addr, sqrx_addr] at haddr
  apply disjoint_fieldBits
  simp only [sq, Regbits.ofLow]
  split_ifs at haddr <;> omega

/-- The ranks of `SQR1` end at bit 20, where the length begins. -/
theorem sq_apart_sqr1L {rank : Nat} (h : rank ≤ 16) :
    (sq baseAddr T rank).Apart (sqr1L baseAddr T) := by
  intro hreg
  have haddr : (sqrx baseAddr rank).addr = (sqr1 baseAddr).addr := congrArg Reg.addr hreg
  rw [sqrx_addr] at haddr
  apply disjoint_fieldBits
  simp only [sq, sqr1L, Regbits.ofLow]
  simp only [sqr1] at haddr
  split_ifs at haddr <;> omega

theorem smp_apart_sq (channel rank : Nat) :
    (smp baseAddr T channel).Apart (sq baseAddr T rank) := by
  intro hreg
  have haddr : (smprx baseAddr channel).addr = (sqrx baseAddr rank).addr :=
    congrArg Reg.addr hreg
  rw [smprx_addr, sqrx_addr] at haddr
  split_ifs at haddr <;> omega

theorem smp_apart_sqr1L (channel : Nat) :
    (smp baseAddr T channel).Apart (sqr1L baseAddr T) := by
  intro hreg
  have haddr : (smprx baseAddr channel).addr = (sqr1 baseAddr).addr := congrArg Reg.addr hreg
  rw [smprx_addr] at haddr
  simp only [sqr1] at haddr
  split_ifs at haddr <;> omega

theorem smp_injective {c d : Nat} (hc : c ≤ 17) (hd : d ≤ 17)
    (h : smp baseAddr T c = smp baseAddr T d) : c = d := by
  by_contra hne
  have hapart : (smp baseAddr T c).Apart (smp baseAddr T d) := smp_apart_smp hc hd hne
  rw [h] at hapart
  exact (smp baseAddr T d).not_apart_self hapart

theorem sq_injective {i j : Nat} (hi : 1 ≤ i ∧ i ≤ 16) (hj : 1 ≤ j ∧ j ≤ 16)
    (h : sq baseAddr T i = sq baseAddr T j) : i = j := by
  by_contra hne
  have hapart : (sq baseAddr T i).Apart (sq baseAddr T j) := sq_apart_sq hi hj hne
  rw [h] at hapart
  exact (sq baseAddr T j).not_apart_self hapart

/-- A field of the length, of a channel or of a rank. -/
inductive SequenceField (baseAddr : Nat) : Regbits T → Prop
  | length : SequenceField baseAddr (sqr1L baseAddr T)
  | sampleTime {channel : Nat} (h : channel ≤ 17) :
      SequenceField baseAddr (smp baseAddr T channel)
  | rank {rank : Nat} (h : 1 ≤ rank ∧ rank ≤ 16) :
      SequenceField baseAddr (sq baseAddr T rank)

namespace SequenceField

variable {f g : Regbits T}

theorem eq_or_apart (hf : SequenceField baseAddr f) (hg : SequenceField baseAddr g) :
    f = g ∨ f.Apart g := by
  cases hf with
  | length =>
      cases hg with
      | length => exact .inl rfl
      | sampleTime h => exact .inr (smp_apart_sqr1L _).symm
      | rank h => exact .inr (sq_apart_sqr1L h.2).symm
  | @sampleTime c hc =>
      cases hg with
      | length => exact .inr (smp_apart_sqr1L c)
      | @sampleTime d hd =>
          by_cases heq : c = d
          · exact .inl (congrArg (smp baseAddr T) heq)
          · exact .inr (smp_apart_smp hc hd heq)
      | @rank j hj => exact .inr (smp_apart_sq c j)
  | @rank i hi =>
      cases hg with
      | length => exact .inr (sq_apart_sqr1L hi.2)
      | @sampleTime d hd => exact .inr (smp_apart_sq d i).symm
      | @rank j hj =>
          by_cases heq : i = j
          · exact .inl (congrArg (sq baseAddr T) heq)
          · exact .inr (sq_apart_sq hi hj heq)

theorem reg_mem (hf : SequenceField baseAddr f) : f.reg ∈ strictRegs baseAddr := by
  cases hf with
  | length => simp [strictRegs, sqr1L, Regbits.ofLow]
  | sampleTime h =>
      simp only [smp, smprx, Regbits.ofLow]
      split <;> simp [strictRegs]
  | rank h =>
      simp only [sq, sqrx, Regbits.ofLow]
      split_ifs <;> simp [strictRegs]

end SequenceField

theorem plain_of_mem_strictRegs {r : Reg} (h : r ∈ strictRegs baseAddr) :
    r.width = 32 ∧ r.resetValue = 0 ∧ r.permission ≠ .ro := by
  simp only [strictRegs, List.mem_cons, List.not_mem_nil, or_false] at h
  rcases h with rfl | rfl | rfl | rfl | rfl | rfl | rfl <;> exact ⟨rfl, rfl, fun h => by cases h⟩

theorem SequenceField.maskWidth_eq {f : Regbits T} (hf : SequenceField baseAddr f) :
    f.maskWidth = f.width := by
  apply f.maskWidth_eq
  rw [(plain_of_mem_strictRegs hf.reg_mem).1]
  exact T.ulongWidth_ge

end Fields

/-- Conversions in their order, each with its channel and sample time. -/
structure RegularSequence where
  steps : List (Nat × Nat)
  length_pos : 1 ≤ steps.length
  length_le : steps.length ≤ 16
  channel_le : ∀ step ∈ steps, step.1 ≤ 17
  time_lt : ∀ step ∈ steps, step.2 < 8

namespace RegularSequence

variable (s : RegularSequence)

/-- The configuration of rank `i + 1`. -/
def config (i : Fin s.steps.length) : RegularChannelConfig where
  channel := s.steps[i].1
  rank := i.val + 1
  sampleTime := s.steps[i].2
  channel_le := s.channel_le _ (List.getElem_mem i.isLt)
  rank_pos := Nat.le_add_left 1 i
  rank_le := Nat.le_trans i.isLt s.length_le
  sampleTime_lt := s.time_lt _ (List.getElem_mem i.isLt)

/-- `configure<>()` with the length of the sequence and a configuration for each rank. -/
def configure {σ : Type} (A : RegAccess σ) (T : Target) (baseAddr : Nat) :
    Except CompileError (σ → σ) := do
  let length ← regularChannelSequenceLength T baseAddr s.steps.length
  let configs ← (List.finRange s.steps.length).mapM fun i =>
    regularChannelConfig T baseAddr (s.config i)
  Adc.configure baseAddr A (length :: configs)

/-- Equal channels have equal sample times. -/
def Consistent : Prop :=
  ∀ x ∈ s.steps, ∀ y ∈ s.steps, x.1 = y.1 → x.2 = y.2

end RegularSequence

/-! The constants that a sequence is made of. -/

section Values

variable (T : Target) (baseAddr : Nat)

namespace RegularChannelConfig

variable (c : RegularChannelConfig)

/-- `regval<SMPRx<channel>::SMP, smp_value>` -/
def smpValue : Regval T :=
  .ofField (smp baseAddr T c.channel) (SequenceField.sampleTime c.channel_le).maskWidth_eq
    c.sampleTime c.sampleTime_lt

/-- `regval<SQRx<rank>::SQ, channel>` -/
def sqValue : Regval T :=
  .ofField (sq baseAddr T c.rank) (SequenceField.rank ⟨c.rank_pos, c.rank_le⟩).maskWidth_eq
    c.channel (Nat.lt_of_le_of_lt c.channel_le (Nat.le_of_ble_eq_true rfl))

def values : List (Regval T) := [c.smpValue T baseAddr, c.sqValue T baseAddr]

theorem regularChannelConfig_eq :
    regularChannelConfig T baseAddr c = .ok (regvalTree (c.values T baseAddr)) := by
  have hsmp : regval (smp baseAddr T c.channel) c.sampleTime = .ok (c.smpValue T baseAddr) :=
    Regval.regval_eq_ofField _ _
  have hsq : regval (sq baseAddr T c.rank) c.channel = .ok (c.sqValue T baseAddr) :=
    Regval.regval_eq_ofField _ _
  rw [regularChannelConfig, hsmp, hsq]
  rfl

theorem mem_values {v : Regval T} (hv : v ∈ c.values T baseAddr) :
    v = c.smpValue T baseAddr ∨ v = c.sqValue T baseAddr := by
  simpa [values] using hv

end RegularChannelConfig

theorem separated_of_sequenceField {vals : List (Regval T)}
    (hfield : ∀ v ∈ vals, SequenceField baseAddr v.field)
    (hlt : ∀ v ∈ vals, v.constant < 2 ^ v.field.width) : Separated vals where
  whole := fun v hv => (hfield v hv).maskWidth_eq
  constant_lt := hlt
  apart := fun v hv w hw => (hfield v hv).eq_or_apart (hfield w hw)

namespace RegularChannelConfig

variable {T baseAddr} {c : RegularChannelConfig}

theorem sequenceField_values {v : Regval T} (hv : v ∈ c.values T baseAddr) :
    SequenceField baseAddr v.field := by
  rcases c.mem_values T baseAddr hv with rfl | rfl
  · exact .sampleTime c.channel_le
  · exact .rank ⟨c.rank_pos, c.rank_le⟩

theorem constant_lt_values {v : Regval T} (hv : v ∈ c.values T baseAddr) :
    v.constant < 2 ^ v.field.width := by
  rcases c.mem_values T baseAddr hv with rfl | rfl
  · exact c.sampleTime_lt
  · exact Nat.lt_of_le_of_lt c.channel_le (Nat.le_of_ble_eq_true rfl)

theorem unambiguous_values : Unambiguous (c.values T baseAddr) := by
  intro v hv w hw hfield
  rcases c.mem_values T baseAddr hv with rfl | rfl <;>
    rcases c.mem_values T baseAddr hw with rfl | rfl
  · rfl
  · have hwidth : 3 = 5 := congrArg Regbits.width hfield
    omega
  · have hwidth : 5 = 3 := congrArg Regbits.width hfield
    omega
  · rfl

theorem check_regularChannelConfig : (regvalTree (c.values T baseAddr)).check = .ok () :=
  (separated_of_sequenceField T baseAddr (fun _ => sequenceField_values)
    fun _ => constant_lt_values).check_regvalTree unambiguous_values

end RegularChannelConfig

namespace RegularSequence

variable (s : RegularSequence)

/-- `regval<SQR1::L, value - 1>` -/
def lengthValue : Regval T :=
  .ofField (sqr1L baseAddr T) SequenceField.length.maskWidth_eq
    (s.steps.length - 1)
    (Nat.lt_of_lt_of_le (Nat.sub_one_lt_of_lt s.length_pos) s.length_le)

def values : List (Regval T) :=
  s.lengthValue T baseAddr ::
    (List.finRange s.steps.length).flatMap fun i => (s.config i).values T baseAddr

def trees : List (ListTree Element) :=
  .leaf (.regmask (s.lengthValue T baseAddr).toRegmaskType) ::
    (List.finRange s.steps.length).map fun i => regvalTree ((s.config i).values T baseAddr)

theorem configure_eq {σ : Type} (A : RegAccess σ) :
    s.configure A T baseAddr = Adc.configure baseAddr A (s.trees T baseAddr) := by
  have hvalue : regval (sqr1L baseAddr T) (s.steps.length - 1) =
      .ok (s.lengthValue T baseAddr) := Regval.regval_eq_ofField _ _
  have hlength : regularChannelSequenceLength T baseAddr s.steps.length =
      .ok (.leaf (.regmask (s.lengthValue T baseAddr).toRegmaskType)) := by
    rw [regularChannelSequenceLength, if_pos ⟨s.length_pos, s.length_le⟩, hvalue]
    rfl
  have hconfigs : ((List.finRange s.steps.length).mapM fun i =>
      regularChannelConfig T baseAddr (s.config i)) =
      .ok ((List.finRange s.steps.length).map fun i =>
        regvalTree ((s.config i).values T baseAddr)) := by
    rw [mapM_eq_ok_iff, List.forall₂_map_right_iff, List.forall₂_same]
    exact fun i _ => (s.config i).regularChannelConfig_eq T baseAddr
  rw [configure, hlength, hconfigs]
  rfl

theorem leavesAll_trees : ListTree.leavesAll (s.trees T baseAddr) =
    (regvalElements (s.values T baseAddr)).map Element.regmask := by
  simp only [trees, ListTree.leavesAll, ListTree.leaves, values, regvalElements, List.map_cons,
    List.singleton_append, List.map_flatMap]
  congr 1
  induction List.finRange s.steps.length with
  | nil => rfl
  | cons i is ih =>
      simp only [List.map_cons, ListTree.leavesAll, List.flatMap_cons, leaves_regvalTree]
      rw [ih]
      rfl

theorem checkAll_trees : ListTree.checkAll (s.trees T baseAddr) = .ok () := by
  simp only [trees, ListTree.checkAll, ListTree.check, check_bind_eq_ok_iff, true_and]
  induction List.finRange s.steps.length with
  | nil => rfl
  | cons i is ih =>
      simp only [List.map_cons, ListTree.checkAll, check_bind_eq_ok_iff]
      exact ⟨RegularChannelConfig.check_regularChannelConfig, ih⟩

variable {T baseAddr s}

theorem mem_values {v : Regval T} : v ∈ s.values T baseAddr ↔
    v = s.lengthValue T baseAddr ∨ ∃ i, v ∈ (s.config i).values T baseAddr := by
  simp [values]

theorem sequenceField_values {v : Regval T} (hv : v ∈ s.values T baseAddr) :
    SequenceField baseAddr v.field := by
  rcases mem_values.mp hv with rfl | ⟨i, hi⟩
  · exact .length
  · exact RegularChannelConfig.sequenceField_values hi

theorem separated_values : Separated (s.values T baseAddr) := by
  refine separated_of_sequenceField T baseAddr (fun _ => sequenceField_values) fun v hv => ?_
  rcases mem_values.mp hv with rfl | ⟨i, hi⟩
  · exact Nat.lt_of_lt_of_le (Nat.sub_one_lt_of_lt s.length_pos) s.length_le
  · exact RegularChannelConfig.constant_lt_values hi

theorem smpValue_mem (i : Fin s.steps.length) :
    (s.config i).smpValue T baseAddr ∈ s.values T baseAddr :=
  mem_values.mpr (.inr ⟨i, List.mem_cons_self⟩)

theorem sqValue_mem (i : Fin s.steps.length) :
    (s.config i).sqValue T baseAddr ∈ s.values T baseAddr :=
  mem_values.mpr (.inr ⟨i, List.mem_cons_of_mem _ List.mem_cons_self⟩)

/-- The length, a sample time or a rank. -/
theorem values_cases {v : Regval T} (hv : v ∈ s.values T baseAddr) :
    v = s.lengthValue T baseAddr ∨ (∃ i, v = (s.config i).smpValue T baseAddr) ∨
      ∃ i, v = (s.config i).sqValue T baseAddr := by
  rcases mem_values.mp hv with rfl | ⟨i, hi⟩
  · exact .inl rfl
  · rcases (s.config i).mem_values T baseAddr hi with rfl | rfl
    · exact .inr (.inl ⟨i, rfl⟩)
    · exact .inr (.inr ⟨i, rfl⟩)

/-- Only a channel that occurs twice can get two constants: fields of different kinds
differ in their width, and a rank occurs once. -/
theorem unambiguous_values_iff : Unambiguous (s.values T baseAddr) ↔ s.Consistent := by
  constructor
  · intro h x hx y hy hchannel
    obtain ⟨i, hi, rfl⟩ := List.getElem_of_mem hx
    obtain ⟨j, hj, rfl⟩ := List.getElem_of_mem hy
    exact h _ (smpValue_mem ⟨i, hi⟩) _ (smpValue_mem ⟨j, hj⟩) (congrArg (smp baseAddr T) hchannel)
  · intro h v hv w hw hfield
    have hwidth := congrArg Regbits.width hfield
    rcases values_cases hv with rfl | ⟨i, rfl⟩ | ⟨i, rfl⟩ <;>
      rcases values_cases hw with rfl | ⟨j, rfl⟩ | ⟨j, rfl⟩
    · rfl
    · exact absurd hwidth (by decide : 4 ≠ 3)
    · exact absurd hwidth (by decide : 4 ≠ 5)
    · exact absurd hwidth (by decide : 3 ≠ 4)
    · have hchannel := smp_injective (s.config i).channel_le (s.config j).channel_le hfield
      exact h _ (List.getElem_mem i.isLt) _ (List.getElem_mem j.isLt) hchannel
    · exact absurd hwidth (by decide : 3 ≠ 5)
    · exact absurd hwidth (by decide : 5 ≠ 4)
    · exact absurd hwidth (by decide : 5 ≠ 3)
    · have hrank : i.val + 1 = j.val + 1 :=
        sq_injective ⟨(s.config i).rank_pos, (s.config i).rank_le⟩
          ⟨(s.config j).rank_pos, (s.config j).rank_le⟩ hfield
      obtain rfl : i = j := Fin.ext (Nat.succ_inj.mp hrank)
      rfl

theorem exists_configure_iff :
    (∃ prog, s.configure busAccess T baseAddr = .ok prog) ↔ s.Consistent := by
  rw [configure_eq, Adc.configure, ← unambiguous_values_iff, ← separated_values.allCompatible_iff]
  refine exists_strictResetTo_leaves_iff (s.leavesAll_trees T baseAddr)
    (s.checkAll_trees T baseAddr) ?_ fun r hr => (plain_of_mem_strictRegs hr).2.2
  intro t ht
  obtain ⟨v, hv, rfl⟩ := List.mem_map.mp ht
  exact (sequenceField_values hv).reg_mem

section Contents

variable {prog : Bus → Bus} (h : s.configure busAccess T baseAddr = .ok prog) (b : Bus)
include h

theorem value_configure {r : Reg} (hr : r ∈ strictRegs baseAddr) :
    (prog b).file.value r = resetUnion r (onReg (regvalElements (s.values T baseAddr)) r) := by
  rw [configure_eq] at h
  exact value_strictResetTo (s.leavesAll_trees T baseAddr) h hr b

/-- Each field of the sequence holds its constant. -/
theorem contents_configure {v : Regval T} (hv : v ∈ s.values T baseAddr) :
    v.field.contents (prog b).file = v.constant := by
  have hreg := (sequenceField_values hv).reg_mem
  rw [Regbits.contents, value_configure h b hreg]
  exact separated_values.fieldOf_resetUnion
    (unambiguous_values_iff.mpr (exists_configure_iff.mp ⟨prog, h⟩)) hv
    (plain_of_mem_strictRegs hreg).2.1

/-- The other fields hold 0. -/
theorem contents_configure_eq_zero {f : Regbits T} (hf : SequenceField baseAddr f)
    (hnone : ∀ v ∈ s.values T baseAddr, f ≠ v.field) : f.contents (prog b).file = 0 := by
  rw [Regbits.contents, value_configure h b hf.reg_mem]
  refine separated_values.fieldOf_resetUnion_of_apart (fun v hv => ?_)
    (plain_of_mem_strictRegs hf.reg_mem).2.1
  exact (hf.eq_or_apart (sequenceField_values hv)).resolve_left (hnone v hv)

theorem contents_sq_eq_zero {rank : Nat} (hlt : s.steps.length < rank) (hle : rank ≤ 16) :
    (sq baseAddr T rank).contents (prog b).file = 0 := by
  have hpos : 1 ≤ rank := by omega
  refine contents_configure_eq_zero h b (.rank ⟨hpos, hle⟩) fun v hv hfield => ?_
  have hwidth := congrArg Regbits.width hfield
  rcases values_cases hv with rfl | ⟨i, rfl⟩ | ⟨i, rfl⟩
  · exact absurd hwidth (by decide : 5 ≠ 4)
  · exact absurd hwidth (by decide : 5 ≠ 3)
  · have hrank : rank = i.val + 1 :=
      sq_injective ⟨hpos, hle⟩ ⟨(s.config i).rank_pos, (s.config i).rank_le⟩ hfield
    have hi := i.isLt
    omega

theorem contents_smp_eq_zero {channel : Nat} (hle : channel ≤ 17)
    (hnone : ∀ step ∈ s.steps, step.1 ≠ channel) :
    (smp baseAddr T channel).contents (prog b).file = 0 := by
  refine contents_configure_eq_zero h b (.sampleTime hle) fun v hv hfield => ?_
  have hwidth := congrArg Regbits.width hfield
  rcases values_cases hv with rfl | ⟨i, rfl⟩ | ⟨i, rfl⟩
  · exact absurd hwidth (by decide : 3 ≠ 4)
  · have hchannel := smp_injective hle (s.config i).channel_le hfield
    exact hnone _ (List.getElem_mem i.isLt) hchannel.symm
  · exact absurd hwidth (by decide : 3 ≠ 5)

end Contents

end RegularSequence

end Values

end Adc

/-- Sequences compile unless a channel occurs with two sample times, and the registers
then hold the sequence and nothing else. -/
theorem adcConfigure_decodes (s : Adc.RegularSequence) (T : Target) (baseAddr : Nat) :
    ((∃ prog, s.configure busAccess T baseAddr = .ok prog) ↔ s.Consistent) ∧
      ∀ prog, s.configure busAccess T baseAddr = .ok prog → ∀ b : Bus,
        (Adc.sqr1L baseAddr T).contents (prog b).file = s.steps.length - 1 ∧
        (∀ i : Fin s.steps.length,
          (Adc.sq baseAddr T (i.val + 1)).contents (prog b).file = s.steps[i].1 ∧
          (Adc.smp baseAddr T s.steps[i].1).contents (prog b).file = s.steps[i].2) ∧
        (∀ rank, s.steps.length < rank → rank ≤ 16 →
          (Adc.sq baseAddr T rank).contents (prog b).file = 0) ∧
        ∀ channel ≤ 17, (∀ step ∈ s.steps, step.1 ≠ channel) →
          (Adc.smp baseAddr T channel).contents (prog b).file = 0 := by
  refine ⟨Adc.RegularSequence.exists_configure_iff,
    fun prog h b => ⟨?_, fun i => ⟨?_, ?_⟩, ?_, ?_⟩⟩
  · exact Adc.RegularSequence.contents_configure h b
      (Adc.RegularSequence.mem_values.mpr (.inl rfl))
  · exact Adc.RegularSequence.contents_configure h b (Adc.RegularSequence.sqValue_mem i)
  · exact Adc.RegularSequence.contents_configure h b (Adc.RegularSequence.smpValue_mem i)
  · exact fun rank => Adc.RegularSequence.contents_sq_eq_zero h b
  · exact fun channel => Adc.RegularSequence.contents_smp_eq_zero h b

end OpenMptl
