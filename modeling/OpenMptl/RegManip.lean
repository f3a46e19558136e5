/-
`experimental::reg_manip<>`: a variable that takes the operations of a register and
is stored at the end.  Its operations are compared with those of the register,
performed on a plain variable and on the register itself.
-/
import OpenMptl.Lockstep
import OpenMptl.StrictReset

namespace OpenMptl

universe u

/-- The argument pack `Rm...` of an operation on `r`, with the type it merges into. -/
structure Reg.Merged (r : Reg) where
  rm0 : RegmaskType
  rm : List RegmaskType
  type : RegmaskType
  resolves : r.merge rm0 rm = .ok type

theorem Reg.Merged.reg_eq {r : Reg} (t : r.Merged) : t.type.reg = r :=
  (Reg.merge_eq_ok t.resolves).1

/-- An object of `reg_manip<T>`. -/
structure RegManip (r : Reg) where
  reg : Nat
  reg_lt : reg < 2 ^ r.width

namespace RegManip

variable {r : Reg} (m : RegManip r)

/-- `reg_manip(value_type val)`; every assignment to `reg` narrows in the same way. -/
def ofValue (r : Reg) (val : Nat) : RegManip r :=
  ⟨val % 2 ^ r.width, Nat.mod_lt _ (Nat.two_pow_pos _)⟩

/-- `operator=`, which returns `*this`. -/
def assign (_rhs : RegManip r) : RegManip r := m

/-- `operator|=` -/
def orAssign (rhs : Nat) : RegManip r := ofValue r (m.reg ||| rhs)

/-- `operator&=` -/
def andAssign (rhs : Nat) : RegManip r := ofValue r (m.reg &&& rhs)

/-- `operator value_type()` -/
def value : Nat := m.reg

def load (_m : RegManip r) (b : Bus) : RegManip r × Bus :=
  let (v, b) := busAccess.load r b
  (ofValue r v, b)

def store (b : Bus) : Bus := busAccess.store r m.reg b

def set (setMask : Nat) : RegManip r := ofValue r (m.reg ||| setMask)

def setClear (setMask clearMask : Nat) : RegManip r :=
  ofValue r ((m.reg &&& bitNot r.width clearMask) ||| setMask)

def clear (value : Nat) : RegManip r := ofValue r (m.reg &&& bitNot r.width value)

/-- `clear<Rm...>()` -/
def clearMasks (t : r.Merged) : RegManip r := m.clear t.type.clearMask

/-- `set<Rm...>()` -/
def setConstants (t : r.Merged) : RegManip r :=
  m.setClear t.type.setMask t.type.croppedClearMask

end RegManip

/-- The operations that a `reg_manip<>` has in common with its register. -/
inductive ManipOp (r : Reg)
  | orAssign (rhs : Nat)
  | andAssign (rhs : Nat)
  | set (mask : Nat)
  | setClear (setMask clearMask : Nat)
  | clear (mask : Nat)
  | setConstants (t : r.Merged)
  | clearMasks (t : r.Merged)

namespace ManipOp

variable {r : Reg}

def onManip (m : RegManip r) : ManipOp r → RegManip r
  | .orAssign rhs => m.orAssign rhs
  | .andAssign rhs => m.andAssign rhs
  | .set mask => m.set mask
  | .setClear setMask clearMask => m.setClear setMask clearMask
  | .clear mask => m.clear mask
  | .setConstants t => m.setConstants t
  | .clearMasks t => m.clearMasks t

/-- The corresponding operations of `reg<>`. -/
def direct {σ : Type u} (A : RegAccess σ) (cfg : BitbandConfig) (s : σ) : ManipOp r → σ
  | .orAssign rhs => r.set A rhs s
  | .andAssign rhs => r.mask A rhs s
  | .set mask => r.set A mask s
  | .setClear setMask clearMask => r.setClear A setMask clearMask s
  | .clear mask => r.clear A mask s
  | .setConstants t => t.type.set A cfg s
  | .clearMasks t => t.type.clear A cfg s

end ManipOp

/-- A plain variable in the place of the register. -/
def varAccess : RegAccess Nat where
  load _ v := (v, v)
  store r v _ := v % 2 ^ r.width
  bitset r n v := (v ||| 2 ^ n) % 2 ^ r.width
  bitclear r n v := (v &&& bitNot r.width (2 ^ n)) % 2 ^ r.width
  bittest _ n v := (v.testBit n, v)

/-! Programs with any number of objects, and with plain variables in their place. -/

inductive ManipStmt (r : Reg)
  | construct (x : Nat)
  | constructValue (x val : Nat)
  | constructCopy (x y : Nat)
  | load (x : Nat)
  | apply (x : Nat) (op : ManipOp r)
  | assign (x y : Nat)
  | store (x : Nat)

/-- The objects by name, and the register behind the bus. -/
structure ManipState (r : Reg) where
  objects : Nat → Option (RegManip r)
  bus : Bus

namespace ManipState

variable {r : Reg} (s : ManipState r)

def put (x : Nat) (m : RegManip r) : ManipState r :=
  { s with objects := Function.update s.objects x (some m) }

/-- A statement on names that are not declared has no meaning and is skipped. -/
def exec : ManipStmt r → ManipState r
  | .construct x =>
      let (v, bus) := busAccess.load r s.bus
      { s with bus }.put x (RegManip.ofValue r v)
  | .constructValue x val => s.put x (RegManip.ofValue r val)
  | .constructCopy x y =>
      match s.objects y with
      | some rhs => s.put x rhs
      | none => s
  | .load x =>
      match s.objects x with
      | some m =>
          let (m, bus) := m.load s.bus
          { s with bus }.put x m
      | none => s
  | .apply x op =>
      match s.objects x with
      | some m => s.put x (op.onManip m)
      | none => s
  | .assign x y =>
      match s.objects x, s.objects y with
      | some m, some rhs => s.put x (m.assign rhs)
      | _, _ => s
  | .store x =>
      match s.objects x with
      | some m => { s with bus := m.store s.bus }
      | none => s

end ManipState

/-- Plain variables of the value type by name, and the register. -/
structure VarState where
  vars : Nat → Option Nat
  bus : Bus

namespace VarState

variable (s : VarState)

def put (x v : Nat) : VarState := { s with vars := Function.update s.vars x (some v) }

def exec (r : Reg) (cfg : BitbandConfig) (s : VarState) : ManipStmt r → VarState
  | .construct x =>
      let (v, bus) := busAccess.load r s.bus
      { s with bus }.put x v
  | .constructValue x val => s.put x (val % 2 ^ r.width)
  | .constructCopy x y =>
      match s.vars y with
      | some v => s.put x v
      | none => s
  | .load x =>
      match s.vars x with
      | some _ =>
          let (v, bus) := busAccess.load r s.bus
          { s with bus }.put x v
      | none => s
  | .apply x op =>
      match s.vars x with
      | some v => s.put x (op.direct varAccess cfg v)
      | none => s
  | .assign x y =>
      match s.vars x, s.vars y with
      | some _, some v => s.put x v
      | _, _ => s
  | .store x =>
      match s.vars x with
      | some v => { s with bus := busAccess.store r v s.bus }
      | none => s

end VarState

namespace ManipState

variable {r : Reg}

/-- Every object holds the value of its variable, and the registers are the same. -/
def Agrees (s : ManipState r) (t : VarState) : Prop :=
  (∀ x, (s.objects x).map RegManip.value = t.vars x) ∧ s.bus = t.bus

/-- An assignment is between objects that hold the same value. -/
def KeepsAssigned (s : ManipState r) : ManipStmt r → Prop
  | .assign x y =>
      ∀ m rhs, s.objects x = some m → s.objects y = some rhs → m.value = rhs.value
  | .construct _ => True
  | .constructValue _ _ => True
  | .constructCopy _ _ => True
  | .load _ => True
  | .apply _ _ => True
  | .store _ => True

end ManipState

/-! The operations on the cached copy. -/

theorem Reg.Merged.reg_lt {r : Reg} (t : r.Merged) (m : RegManip r) :
    m.reg < 2 ^ t.type.reg.width := by
  rw [t.reg_eq]
  exact m.reg_lt

theorem Regmask.set_varAccess (t : Regmask) (cfg : BitbandConfig) {v : Nat}
    (hv : v < 2 ^ t.reg.width) :
    t.set varAccess cfg v =
      ((v &&& bitNot t.reg.width t.croppedClearMask) ||| t.setMask) % 2 ^ t.reg.width := by
  by_cases hbit : (!cfg.disableWrite && (t.bitopEnabled && t.setMask == t.clearMask)) = true
  · have hset : t.set varAccess cfg v =
        (v ||| 2 ^ ((bitcount t.clearMask).significantBits - 1)) % 2 ^ t.reg.width := by
      simp only [set, hbit, ↓reduceIte]
      rfl
    simp only [Bool.and_eq_true, beq_iff_eq] at hbit
    obtain ⟨n, hn, hindex⟩ := exists_bit_of_bitopEnabled hbit.2.1
    have hbits : bits (v ||| 2 ^ n) =
        bits ((v &&& bitNot t.reg.width t.croppedClearMask) ||| t.setMask) := by
      rw [bits_or, bits_or, bits_and_bitNot hv, bits_croppedClearMask, patch_set, patch_clear,
        hbit.2.2, hn, sdiff_self]
      simp
    rw [hset, hindex, bits_injective hbits]
  · by_cases hzero : t.setMask ≠ 0 ∨ t.clearMask ≠ 0
    · simp only [set, hbit, if_pos hzero]
      rfl
    · simp only [not_or, not_not] at hzero
      have hset : t.set varAccess cfg v = v :=
        set_of_clearMask_eq_zero varAccess cfg hzero.2 v
      have hkeep : (v &&& bitNot t.reg.width t.croppedClearMask) ||| t.setMask = v := by
        apply bits_injective
        rw [bits_or, bits_and_bitNot hv, bits_croppedClearMask, patch_set, patch_clear,
          hzero.1, hzero.2]
        simp
      rw [hset, hkeep, Nat.mod_eq_of_lt hv]

theorem Regmask.clear_varAccess (t : Regmask) (cfg : BitbandConfig) {v : Nat}
    (hv : v < 2 ^ t.reg.width) :
    t.clear varAccess cfg v =
      (v &&& bitNot t.reg.width t.clearMask) % 2 ^ t.reg.width := by
  by_cases hbit : (!cfg.disableWrite && t.bitopEnabled) = true
  · have hclear : t.clear varAccess cfg v = (v &&& bitNot t.reg.width
        (2 ^ ((bitcount t.clearMask).significantBits - 1))) % 2 ^ t.reg.width := by
      simp only [clear, hbit, ↓reduceIte]
      rfl
    simp only [Bool.and_eq_true] at hbit
    obtain ⟨n, hn, hindex⟩ := exists_bit_of_bitopEnabled hbit.2
    rw [hclear, hindex, hn]
  · by_cases hzero : t.clearMask = 0
    · have hkeep : v &&& bitNot t.reg.width t.clearMask = v := by
        apply bits_injective
        rw [bits_and_bitNot hv, hzero]
        simp
      rw [clear_of_clearMask_eq_zero varAccess cfg hzero, hkeep, Nat.mod_eq_of_lt hv]
    · have hne : t.clearMask ≠ 0 := hzero
      simp only [clear, hbit, if_pos hne]
      rfl

/-- The same operation on the bus and on a variable of the content. -/
theorem Regmask.value_set (t : Regmask) (cfg : BitbandConfig) (b : Bus) :
    (t.set busAccess cfg b).file.value t.reg =
      t.set varAccess cfg (b.file.value t.reg) := by
  unfold set
  split
  · exact b.file.store_value_self _ _
  · split
    · exact RegFile.store_value_self _ _ _
    · rfl

theorem Regmask.value_clear (t : Regmask) (cfg : BitbandConfig) (b : Bus) :
    (t.clear busAccess cfg b).file.value t.reg =
      t.clear varAccess cfg (b.file.value t.reg) := by
  unfold clear
  split
  · exact b.file.store_value_self _ _
  · split
    · exact RegFile.store_value_self _ _ _
    · rfl

namespace ManipOp

variable {r : Reg} (cfg : BitbandConfig)

/-- Each operation does to the copy what the register operation does to a variable. -/
theorem value_onManip (m : RegManip r) (op : ManipOp r) :
    (op.onManip m).value = op.direct varAccess cfg m.value := by
  cases op with
  | orAssign rhs => rfl
  | andAssign rhs => rfl
  | set mask => rfl
  | setClear setMask clearMask => rfl
  | clear mask => rfl
  | setConstants t =>
      have hset := t.type.set_varAccess cfg (t.reg_lt m)
      rw [t.reg_eq] at hset
      exact hset.symm
  | clearMasks t =>
      have hclear := t.type.clear_varAccess cfg (t.reg_lt m)
      rw [t.reg_eq] at hclear
      exact hclear.symm

/-- The operation on the register is the operation on a variable of its content. -/
theorem value_direct_bus (b : Bus) (op : ManipOp r) :
    (op.direct busAccess cfg b).file.value r = op.direct varAccess cfg (b.file.value r) := by
  cases op with
  | orAssign rhs => simp [direct, Reg.set, busAccess, varAccess]
  | andAssign rhs => simp [direct, Reg.mask, busAccess, varAccess]
  | set mask => simp [direct, Reg.set, busAccess, varAccess]
  | setClear setMask clearMask => simp [direct, Reg.setClear, busAccess, varAccess]
  | clear mask => simp [direct, Reg.clear, busAccess, varAccess]
  | setConstants t =>
      have hset := t.type.value_set cfg b
      rw [t.reg_eq] at hset
      exact hset
  | clearMasks t =>
      have hclear := t.type.value_clear cfg b
      rw [t.reg_eq] at hclear
      exact hclear

end ManipOp

/-! The simulation. -/

namespace ManipState

variable {r : Reg} (cfg : BitbandConfig) {s : ManipState r} {t : VarState}

theorem exec_store {x : Nat} {m : RegManip r} (hx : s.objects x = some m) :
    s.exec (.store x) = { s with bus := m.store s.bus } := by
  simp only [exec, hx]

theorem agrees_put_iff (h : s.Agrees t) (x : Nat) (m : RegManip r) (v : Nat) :
    (s.put x m).Agrees (t.put x v) ↔ m.value = v := by
  constructor
  · intro hput
    have hx := hput.1 x
    simpa [put, VarState.put] using hx
  · intro heq
    refine ⟨fun y => ?_, h.2⟩
    rcases eq_or_ne y x with rfl | hne
    · simp [put, VarState.put, heq]
    · simpa [put, VarState.put, hne] using h.1 y

theorem Agrees.with_bus (h : s.Agrees t) (bus : Bus) :
    ({ s with bus } : ManipState r).Agrees { t with bus } :=
  ⟨h.1, rfl⟩

/-- A variable is declared exactly when the object is. -/
theorem Agrees.vars_eq (h : s.Agrees t) {x : Nat} {o : Option (RegManip r)}
    (ho : s.objects x = o) : t.vars x = o.map RegManip.value := by
  rw [← h.1 x, ho]

/-- An assignment leaves both objects as they are. -/
theorem exec_assign_agrees_iff (h : s.Agrees t) (x y : Nat) :
    (s.exec (.assign x y)).Agrees (t.exec r cfg (.assign x y)) ↔
      s.KeepsAssigned (.assign x y) := by
  cases hx : s.objects x with
  | none =>
      simp only [exec, VarState.exec, hx, h.vars_eq hx, KeepsAssigned]
      exact iff_of_true h (fun m rhs hm => by cases hm)
  | some m =>
      cases hy : s.objects y with
      | none =>
          simp only [exec, VarState.exec, hx, hy, h.vars_eq hx, h.vars_eq hy, KeepsAssigned]
          exact iff_of_true h (fun m rhs _ hrhs => by cases hrhs)
      | some rhs =>
          simp only [exec, VarState.exec, hx, hy, h.vars_eq hx, h.vars_eq hy, KeepsAssigned]
          simp only [Option.map_some, agrees_put_iff h, RegManip.assign, Option.some.injEq]
          constructor
          · rintro heq _ _ rfl rfl
            exact heq
          · intro hkeep
            exact hkeep m rhs rfl rfl

/-- One statement keeps the agreement, except for an assignment that should have
changed its object. -/
theorem exec_agrees_iff (h : s.Agrees t) (stmt : ManipStmt r) :
    (s.exec stmt).Agrees (t.exec r cfg stmt) ↔ s.KeepsAssigned stmt := by
  have hload : RegManip.value (RegManip.ofValue r (s.bus.file.value r)) =
      t.bus.file.value r := by
    rw [← h.2]
    exact Nat.mod_eq_of_lt (s.bus.file.value_lt r)
  have hlog : (busAccess.load r s.bus).2 = (busAccess.load r t.bus).2 := by rw [h.2]
  cases stmt with
  | construct x =>
      refine iff_of_true ?_ trivial
      have hbus := h.with_bus (busAccess.load r t.bus).2
      simp only [exec, VarState.exec, hlog]
      exact (agrees_put_iff hbus x _ _).mpr hload
  | constructValue x val =>
      exact iff_of_true ((agrees_put_iff h x _ _).mpr rfl) trivial
  | constructCopy x y =>
      refine iff_of_true ?_ trivial
      cases hy : s.objects y with
      | none => simpa only [exec, VarState.exec, hy, h.vars_eq hy, Option.map_none] using h
      | some rhs =>
          simp only [exec, VarState.exec, hy, h.vars_eq hy]
          exact (agrees_put_iff h x _ _).mpr rfl
  | load x =>
      refine iff_of_true ?_ trivial
      cases hx : s.objects x with
      | none => simpa only [exec, VarState.exec, hx, h.vars_eq hx, Option.map_none] using h
      | some m =>
          have hbus := h.with_bus (busAccess.load r t.bus).2
          simp only [exec, VarState.exec, hx, h.vars_eq hx, RegManip.load, hlog]
          exact (agrees_put_iff hbus x _ _).mpr hload
  | apply x op =>
      refine iff_of_true ?_ trivial
      cases hx : s.objects x with
      | none => simpa only [exec, VarState.exec, hx, h.vars_eq hx, Option.map_none] using h
      | some m =>
          simp only [exec, VarState.exec, hx, h.vars_eq hx]
          exact (agrees_put_iff h x _ _).mpr (op.value_onManip cfg m)
  | assign x y => exact exec_assign_agrees_iff cfg h x y
  | store x =>
      refine iff_of_true ?_ trivial
      cases hx : s.objects x with
      | none => simpa only [exec, VarState.exec, hx, h.vars_eq hx, Option.map_none] using h
      | some m =>
          simp only [exec, VarState.exec, hx, h.vars_eq hx, RegManip.store]
          exact ⟨h.1, by rw [h.2]; rfl⟩

end ManipState

/-! One object in the place of the register. -/

namespace ManipStmt

variable {r : Reg} (cfg : BitbandConfig)

/-- An operation of the object `x`, or its `store()`. -/
def onObject (x : Nat) : Option (ManipOp r) → ManipStmt r
  | some op => .apply x op
  | none => .store x

/-- The program on the object: it is constructed, used, and stored. -/
def buffered (x : Nat) (body : List (Option (ManipOp r))) : List (ManipStmt r) :=
  .construct x :: (body.map (onObject x) ++ [.store x])

/-- The operations of the body, performed on the register. -/
def directly (body : List (Option (ManipOp r))) (b : Bus) : Bus :=
  (body.filterMap id).foldl (fun b op => op.direct busAccess cfg b) b

/-- The object holds what the register would hold. -/
theorem foldl_onObject (x : Nat) (body : List (Option (ManipOp r))) {s : ManipState r}
    {m : RegManip r} {b : Bus} (hx : s.objects x = some m) (hm : m.value = b.file.value r) :
    ∃ m', ((body.map (onObject x)).foldl ManipState.exec s).objects x = some m' ∧
      m'.value = (directly cfg body b).file.value r := by
  induction body generalizing s m b with
  | nil => exact ⟨m, hx, hm⟩
  | cons o body ih =>
      cases o with
      | none =>
          have hstore : (s.exec (.store x)).objects x = some m := by
            simp only [ManipState.exec, hx]
          exact ih hstore hm
      | some op =>
          have happly : (s.exec (.apply x op)).objects x = some (op.onManip m) := by
            simp [ManipState.exec, hx, ManipState.put]
          have hvalue : (op.onManip m).value = (op.direct busAccess cfg b).file.value r := by
            rw [op.value_onManip cfg m, op.value_direct_bus cfg b, hm]
          exact ih happly hvalue

theorem value_buffered (x : Nat) (body : List (Option (ManipOp r))) (s : ManipState r) :
    ((buffered x body).foldl ManipState.exec s).bus.file.value r =
      (directly cfg body s.bus).file.value r := by
  let start := RegManip.ofValue r (s.bus.file.value r)
  have hx : (s.exec (.construct x)).objects x = some start := by
    simp [ManipState.exec, ManipState.put, start, busAccess]
  have hm : start.value = s.bus.file.value r :=
    Nat.mod_eq_of_lt (s.bus.file.value_lt r)
  obtain ⟨m, hobject, hvalue⟩ := foldl_onObject cfg x body hx hm
  rw [buffered, List.foldl_cons, List.foldl_append, List.foldl_cons, List.foldl_nil,
    ManipState.exec_store hobject, ← hvalue]
  exact RegFile.store_value_of_lt _ _ m.reg_lt

end ManipStmt

/-- Objects behave as plain variables through a run exactly when no assignment of the
run should have changed its object; and a stored object leaves in the register what
its operations would have left there. -/
theorem regManip_refines_iff (r : Reg) (cfg : BitbandConfig) (b : Bus) :
    (∀ stmts : List (ManipStmt r),
      Lockstep.RelatedAlong ManipState.exec (VarState.exec r cfg) ManipState.Agrees
          ⟨fun _ => none, b⟩ ⟨fun _ => none, b⟩ stmts ↔
        Lockstep.GoodAlong ManipState.exec ManipState.KeepsAssigned ⟨fun _ => none, b⟩ stmts) ∧
    ∀ (s : ManipState r) x body,
      ((ManipStmt.buffered x body).foldl ManipState.exec s).bus.file.value r =
        (ManipStmt.directly cfg body s.bus).file.value r := by
  refine ⟨fun stmts => ?_, fun s x body => ManipStmt.value_buffered cfg x body s⟩
  exact Lockstep.relatedAlong_iff_goodAlong
    (fun _ _ stmt h => ManipState.exec_agrees_iff cfg h stmt) ⟨fun _ => rfl, rfl⟩

namespace RegManipTest

/-- `TEST::REG2` of the unit tests, at its offset. -/
def reg2 : Reg := ⟨.uint32, 0x10, .rw, 0xaaaaaaaa, by decide⟩

/-- Two objects of different value, the second one assigned to the first. -/
def assigned : List (ManipStmt reg2) :=
  [.constructValue 0 1, .constructValue 1 2, .assign 0 1]

def zeros : Bus := .start ⟨fun _ => 0, fun r => r.two_pow_width_pos⟩

/-- After `a = b` the object `a` still holds its own value. -/
theorem regManip_assign_lost :
    ((assigned.foldl ManipState.exec ⟨fun _ => none, zeros⟩).objects 0).map RegManip.value =
        some 1 ∧
      (assigned.foldl (VarState.exec reg2 .automatic) ⟨fun _ => none, zeros⟩).vars 0 = some 2 ∧
      ¬ Lockstep.RelatedAlong ManipState.exec (VarState.exec reg2 .automatic)
        ManipState.Agrees ⟨fun _ => none, zeros⟩ ⟨fun _ => none, zeros⟩ assigned := by
  refine ⟨rfl, rfl, fun h => ?_⟩
  have hvalue := (h assigned List.prefix_rfl).1 0
  exact absurd (Option.some.inj hvalue) (by decide : (1 : Nat) ≠ 2)

end RegManipTest

end OpenMptl
