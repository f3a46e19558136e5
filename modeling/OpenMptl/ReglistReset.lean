/-
Resetting registers from a list: `reglist<>::reset_to()`, its strict variant
with neutral regmasks in front, and the two ways to reset one register.
-/
import OpenMptl.ReglistRun

namespace OpenMptl

open Patch

/-- The reset value of `r`, patched with all masks of `ts`. -/
def resetUnion (r : Reg) (ts : List RegmaskType) : Nat :=
  (r.resetValue &&& bitNot r.width (unionMask Regmask.clearMask ts)) |||
    unionMask Regmask.setMask ts

theorem resetUnion_nil (r : Reg) : resetUnion r [] = r.resetValue := by
  have hreset : r.resetValue < 2 ^ r.width := r.resetValue_lt
  apply bits_injective
  rw [resetUnion, bits_or, bits_and_bitNot hreset]
  simp [unionMask]

theorem bits_resetUnion (r : Reg) (ts : List RegmaskType) :
    bits (resetUnion r ts) = (mergeAll (patches ts)).apply (bits r.resetValue) := by
  have hreset : r.resetValue < 2 ^ r.width := r.resetValue_lt
  rw [resetUnion, bits_or, bits_and_bitNot hreset, bits_unionMask_clearMask,
    bits_unionMask_setMask]
  rfl

theorem resetToValue_of_patch {m : Regmask} {r : Reg} {ts : List RegmaskType}
    (hreg : m.reg = r) (hpatch : m.patch = mergeAll (patches ts)) :
    m.resetToValue = resetUnion r ts := by
  subst hreg
  apply bits_injective
  rw [m.bits_resetToValue, bits_resetUnion, hpatch]

theorem accesses_runAll_resetTo (ts : List RegmaskType) (b : Bus) :
    (runAll (ts.map fun t => t.resetTo busAccess) b).accesses =
      b.accesses ++ ts.map fun t => .store t.reg t.resetToValue := by
  induction ts generalizing b with
  | nil => simp
  | cons t ts ih =>
      have hstore : (t.resetTo busAccess b).accesses =
          b.accesses ++ [.store t.reg t.resetToValue] := by
        change b.accesses ++ [.store t.reg (t.resetToValue % 2 ^ t.reg.width)] = _
        rw [Nat.mod_eq_of_lt t.resetToValue_lt]
      simp only [List.map_cons, runAll_cons, ih, hstore, List.append_assoc,
        List.singleton_append]

namespace Reglist

variable {l : Reglist} {prog : Bus → Bus}

theorem resetTo_eq_ok_iff :
    l.resetTo busAccess = .ok prog ↔ (∀ m ∈ l.uniqueMergedList, m.reg.permission ≠ .ro) ∧
      prog = runAll (l.uniqueMergedList.map fun t => t.resetTo busAccess) := by
  rw [resetTo, Typelist.forEach_eq_ok_iff]
  simp only [functorRegResetTo_eq_ok_iff]
  constructor
  · rintro ⟨commands, hcommands, rfl⟩
    constructor
    · intro m hm
      obtain ⟨-, -, hperm, -⟩ := exists_of_mem_forall₂ hcommands hm
      exact hperm
    · have heq : l.uniqueMergedList.map (fun t => t.resetTo busAccess) = commands := by
        rw [← List.forall₂_eq_eq_eq, List.forall₂_map_left_iff]
        exact hcommands.imp fun _ _ h => h.2
      rw [heq]
      rfl
  · rintro ⟨hperm, rfl⟩
    refine ⟨_, ?_, rfl⟩
    rw [List.forall₂_map_right_iff, List.forall₂_same]
    exact fun m hm => ⟨hperm m hm, rfl⟩

theorem uniqueMergedList_regs (l : Reglist) :
    l.uniqueMergedList.map (fun m => m.reg) = l.regs := by
  rw [← List.forall₂_eq_eq_eq, List.forall₂_map_left_iff]
  exact l.forall₂_uniqueMergedList.flip.imp fun m r hm => (Merged.spec hm).1

/-- `reset_to()` can be called when no register of the list is read-only. -/
theorem exists_resetTo_iff {σ : Type} {A : RegAccess σ} :
    (∃ prog, l.resetTo A = .ok prog) ↔ ∀ t ∈ l.elements, t.reg.permission ≠ .ro := by
  have hmerged : (∃ prog, l.resetTo A = .ok prog) ↔
      ∀ m ∈ l.uniqueMergedList, m.reg.permission ≠ .ro := by
    simp only [resetTo, Typelist.forEach_eq_ok_iff, functorRegResetTo_eq_ok_iff]
    constructor
    · rintro ⟨-, commands, hcommands, -⟩ m hm
      obtain ⟨-, -, hperm, -⟩ := exists_of_mem_forall₂ hcommands hm
      exact hperm
    · intro hperm
      refine ⟨_, l.uniqueMergedList.map fun t => t.resetTo A, ?_, rfl⟩
      rw [List.forall₂_map_right_iff, List.forall₂_same]
      exact fun m hm => ⟨hperm m hm, rfl⟩
  rw [hmerged]
  have hregs : ∀ r, (∃ m ∈ l.uniqueMergedList, m.reg = r) ↔
      ∃ t ∈ l.elements, t.reg = r := by
    intro r
    rw [← mem_regs, ← uniqueMergedList_regs, List.mem_map]
  constructor
  · intro h t ht
    obtain ⟨m, hm, hreg⟩ := (hregs t.reg).mpr ⟨t, ht, rfl⟩
    exact hreg ▸ h m hm
  · intro h m hm
    obtain ⟨t, ht, hreg⟩ := (hregs m.reg).mp ⟨m, hm, rfl⟩
    exact hreg ▸ h t ht

/-- One store for each register, with the merged reset value. -/
theorem accesses_resetTo (h : l.resetTo busAccess = .ok prog) (b : Bus) :
    (prog b).accesses =
      b.accesses ++ l.regs.map fun r => .store r (resetUnion r (onReg l.elements r)) := by
  rw [(resetTo_eq_ok_iff.mp h).2, accesses_runAll_resetTo]
  congr 1
  rw [← List.forall₂_eq_eq_eq, List.forall₂_map_left_iff, List.forall₂_map_right_iff]
  refine l.forall₂_uniqueMergedList.flip.imp fun m r hm => ?_
  obtain ⟨hreg, -, hpatch⟩ := Merged.spec hm
  rw [resetToValue_of_patch hreg hpatch, hreg]

theorem bits_resetTo (h : l.resetTo busAccess = .ok prog) (b : Bus) (r : Reg) :
    bits ((prog b).file.value r) =
      (onReg l.uniqueMergedList r).foldl (fun _ t => bits t.resetToValue)
        (bits (b.file.value r)) := by
  have hacts : List.Forall₂ (fun t c => Acts c t.reg (fun _ => bits t.resetToValue) True)
      l.uniqueMergedList (l.uniqueMergedList.map fun t => t.resetTo busAccess) := by
    rw [List.forall₂_map_right_iff, List.forall₂_same]
    exact fun t _ => t.resetTo_acts
  rw [(resetTo_eq_ok_iff.mp h).2, bits_runAll hacts]

theorem value_resetTo_of_mem (h : l.resetTo busAccess = .ok prog) (b : Bus) {r : Reg}
    (hr : ∃ t ∈ l.elements, t.reg = r) :
    (prog b).file.value r = resetUnion r (onReg l.elements r) := by
  rcases l.uniqueMergedList_cases r with ⟨hnil, -⟩ | ⟨m, hm, hunique⟩
  · obtain ⟨t, ht, hreg⟩ := hr
    exact absurd (mem_onReg.mpr ⟨ht, hreg⟩) (hnil ▸ List.not_mem_nil)
  · apply bits_injective
    rw [bits_resetTo h, hunique, ← resetToValue_of_patch hm.spec.1 hm.spec.2.2]
    rfl

/-- The merged list names no register beside those of the elements. -/
theorem onReg_uniqueMergedList_eq_nil {r : Reg} (hr : ∀ t ∈ l.elements, t.reg ≠ r) :
    onReg l.uniqueMergedList r = [] := by
  refine onReg_eq_nil l.forall₂_uniqueMergedList fun hmem => ?_
  obtain ⟨t, ht, hreg⟩ := mem_regs.mp hmem
  exact hr t ht hreg

theorem value_resetTo_of_not_mem (h : l.resetTo busAccess = .ok prog) (b : Bus) {r : Reg}
    (hr : ∀ t ∈ l.elements, t.reg ≠ r) : (prog b).file.value r = b.file.value r := by
  apply bits_injective
  rw [bits_resetTo h, onReg_uniqueMergedList_eq_nil hr]
  rfl

/-- The member `merged_regmask<>` names the same masks. -/
theorem mergedRegmask_of_mem {r : Reg} (hr : ∃ t ∈ l.elements, t.reg = r) :
    ∃ m, l.mergedRegmask r = .ok (some m) ∧ m.reg = r ∧
      m.setMask = unionMask Regmask.setMask (onReg l.elements r) ∧
      m.clearMask = unionMask Regmask.clearMask (onReg l.elements r) := by
  obtain ⟨m, hm, hunique⟩ :=
    exists_onReg_eq_singleton l.forall₂_uniqueMergedList l.regs_nodup (mem_regs.mpr hr)
  exact ⟨m, by rw [mergedRegmask_eq, hunique]; rfl, hm.spec.1, hm.masks⟩

theorem mergedRegmask_of_not_mem {r : Reg} (hr : ∀ t ∈ l.elements, t.reg ≠ r) :
    l.mergedRegmask r = .ok none := by
  rw [mergedRegmask_eq, onReg_uniqueMergedList_eq_nil hr]
  rfl

end Reglist

/-- A tree of resources resets each register of its regmask leaves with one
store, and `merged_regmask<>` agrees with what is stored. -/
theorem makeReglist_resetTo_stores_union {trees : List (ListTree Element)} {l : Reglist}
    (h : makeReglist trees = .ok l) :
    ((∃ prog, l.resetTo busAccess = .ok prog) ↔
      ∀ t ∈ regmaskLeaves trees, t.reg.permission ≠ .ro) ∧
    (∀ prog, l.resetTo busAccess = .ok prog → ∀ file : RegFile,
      (prog (Bus.start file)).accesses =
          (((regmaskLeaves trees).map fun t => t.reg).eraseDups.map fun r =>
            .store r (resetUnion r (onReg (regmaskLeaves trees) r))) ∧
        (∀ r, (∃ t ∈ regmaskLeaves trees, t.reg = r) →
          (prog (Bus.start file)).file.value r =
            resetUnion r (onReg (regmaskLeaves trees) r)) ∧
        (∀ r, (∀ t ∈ regmaskLeaves trees, t.reg ≠ r) →
          (prog (Bus.start file)).file.value r = file.value r)) ∧
    (∀ r, (∃ t ∈ regmaskLeaves trees, t.reg = r) →
      ∃ m, l.mergedRegmask r = .ok (some m) ∧ m.reg = r ∧
        m.setMask = unionMask Regmask.setMask (onReg (regmaskLeaves trees) r) ∧
        m.clearMask = unionMask Regmask.clearMask (onReg (regmaskLeaves trees) r)) ∧
    (∀ r, (∀ t ∈ regmaskLeaves trees, t.reg ≠ r) → l.mergedRegmask r = .ok none) := by
  rw [← makeReglist_elements h]
  refine ⟨Reglist.exists_resetTo_iff, ?_, ?_, ?_⟩
  · intro prog hprog file
    refine ⟨?_, ?_, ?_⟩
    · exact Reglist.accesses_resetTo hprog (Bus.start file)
    · intro r hr
      exact Reglist.value_resetTo_of_mem hprog (Bus.start file) hr
    · intro r hr
      exact Reglist.value_resetTo_of_not_mem hprog (Bus.start file) hr
  · intro r hr
    exact Reglist.mergedRegmask_of_mem hr
  · intro r hr
    exact Reglist.mergedRegmask_of_not_mem hr

namespace ReglistTest

/-- `reglist< void, A0, B2, void, A2, A0, A2, void, B0 >` -/
def treeAB : ListTree Element :=
  .node .reglist [.void, .leaf (.regmask a0), .leaf (.regmask b2), .void,
    .leaf (.regmask a2), .leaf (.regmask a0), .leaf (.regmask a2), .void,
    .leaf (.regmask b0)]

/-- A list with an element that is not a regmask, as `list_dirty` has one. -/
def treesDirty : List (ListTree Element) :=
  [.node .typelist [.leaf (.regmask b0), .leaf (.other 0), .void, treeAB],
    .leaf (.regmask b0)]

theorem makeReglist_resetTo_stores_union_dirty :
    ∃ l prog, makeReglist treesDirty = .ok l ∧ l.resetTo busAccess = .ok prog ∧
      ∀ file, (prog (Bus.start file)).accesses = [.store regB 0x05, .store regA 0x05] :=
  ⟨_, _, rfl, rfl, fun file =>
    ((@makeReglist_resetTo_stores_union treesDirty _ rfl).2.1 _ rfl file).1⟩

end ReglistTest

end OpenMptl
