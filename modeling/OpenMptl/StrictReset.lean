/-
Strict resets.  A neutral regmask in front of the list makes its register part
of the list without changing any mask, so that the listed registers are reset
whatever the elements are.
-/
import OpenMptl.ReglistReset

namespace OpenMptl

open Patch

/-- The elements of `strict_list`. -/
def strictElements (strictRegType : List Reg) (elements : List RegmaskType) :
    List RegmaskType :=
  strictRegType.map Reg.neutralRegmask ++ elements

@[simp] theorem Reg.neutralRegmask_reg (r : Reg) : r.neutralRegmask.reg = r := rfl

@[simp] theorem Reg.neutralRegmask_patch (r : Reg) : r.neutralRegmask.patch = neutral := by
  ext1
  · exact bits_zero
  · exact bits_zero

theorem patches_neutral (regs : List Reg) (r : Reg) :
    ∀ p ∈ patches (onReg (regs.map Reg.neutralRegmask) r), p = neutral := by
  intro p hp
  obtain ⟨t, ht, rfl⟩ := List.mem_map.mp hp
  obtain ⟨q, -, rfl⟩ := List.mem_map.mp (mem_onReg.mp ht).1
  exact q.neutralRegmask_patch

theorem onReg_strictElements (regs : List Reg) (ts : List RegmaskType) (r : Reg) :
    onReg (strictElements regs ts) r =
      onReg (regs.map Reg.neutralRegmask) r ++ onReg ts r :=
  List.filter_append ..

/-- Neutral regmasks never conflict with the rest of the list. -/
theorem allCompatible_strictElements {regs : List Reg} {ts : List RegmaskType} {r : Reg}
    (h : AllCompatible (patches (onReg ts r))) :
    AllCompatible (patches (onReg (strictElements regs ts) r)) := by
  rw [onReg_strictElements, patches_append, allCompatible_append_iff]
  refine ⟨?_, h, ?_⟩
  · intro p hp q hq
    rw [patches_neutral regs r p hp, patches_neutral regs r q hq]
    exact compatible_self neutral
  · intro p hp q _
    rw [patches_neutral regs r p hp]
    exact (compatible_neutral q).symm

theorem mergeAll_eq_neutral {ps : List (Patch (Set Nat))} (h : ∀ p ∈ ps, p = neutral) :
    mergeAll ps = neutral := by
  induction ps with
  | nil => rfl
  | cons p ps ih =>
      rw [mergeAll_cons, ih fun q hq => h q (List.mem_cons_of_mem p hq), merge_neutral]
      exact h p List.mem_cons_self

/-- Neutral regmasks do not change the merge. -/
theorem mergeAll_strictElements (regs : List Reg) (ts : List RegmaskType) (r : Reg) :
    mergeAll (patches (onReg (strictElements regs ts) r)) =
      mergeAll (patches (onReg ts r)) := by
  rw [onReg_strictElements, patches_append, mergeAll_append,
    mergeAll_eq_neutral (patches_neutral regs r)]
  ext1 <;> simp [neutral]

theorem resetUnion_strictElements (regs : List Reg) (ts : List RegmaskType) (r : Reg) :
    resetUnion r (onReg (strictElements regs ts) r) = resetUnion r (onReg ts r) := by
  apply bits_injective
  rw [bits_resetUnion, bits_resetUnion, mergeAll_strictElements]

theorem exists_merged_of_mem {ts : List RegmaskType} {t : RegmaskType} (ht : t ∈ ts)
    (hcompat : AllCompatible (patches (onReg ts t.reg))) : ∃ m, Merged ts t.reg m := by
  unfold Merged
  cases hts : onReg ts t.reg with
  | nil => exact absurd (mem_onReg.mpr ⟨ht, rfl⟩) (hts ▸ List.not_mem_nil)
  | cons u us =>
      have hregs : ∀ w ∈ u :: us, w.reg = t.reg := fun w hw =>
        (mem_onReg.mp (hts ▸ hw)).2
      have hu := hregs u List.mem_cons_self
      rw [hts] at hcompat
      exact mergedRegmask_isOk
        (fun w hw => (hregs w (List.mem_cons_of_mem u hw)).trans hu.symm) hcompat

/-- The strict list is instantiated whenever the list itself is. -/
theorem Reglist.exists_strictList (l : Reglist) (regs : List Reg) :
    ∃ strictList : Reglist, strictList.elements = strictElements regs l.elements := by
  have hmerged : ∀ t ∈ strictElements regs l.elements,
      ∃ m, Merged (strictElements regs l.elements) t.reg m := fun t ht =>
    exists_merged_of_mem ht (allCompatible_strictElements (l.allCompatible_onReg t.reg))
  obtain ⟨strictList, h⟩ := Reglist.exists_ofElements hmerged
  exact ⟨strictList, Reglist.ofElements_eq_ok_iff.mp h⟩

theorem mem_strictElements_reg {regs : List Reg} {ts : List RegmaskType} {r : Reg} :
    (∃ t ∈ strictElements regs ts, t.reg = r) ↔ r ∈ regs ∨ ∃ t ∈ ts, t.reg = r := by
  simp only [strictElements, List.mem_append, List.mem_map, or_and_right, exists_or,
    exists_exists_and_eq_and, Reg.neutralRegmask_reg, exists_eq_right]

theorem Reglist.strictAssert_eq_ok_iff (l : Reglist) (regs : List Reg) :
    l.strictAssert regs = .ok () ↔ ∀ t ∈ l.elements, t.reg ∈ regs := by
  have hlist : Typelist.typelist (regs.map fun r => some (ListArg.element r)) = regs := by
    rw [Typelist.typelist_eq, List.flatMap_map]
    exact List.flatMap_singleton' regs
  have hall : l.allRegType regs = true ↔ ∀ t ∈ l.elements, t.reg ∈ regs := by
    simp only [Reglist.allRegType, Typelist.allTrue_iff, Typelist.map, List.mem_map,
      mapContainsRegType, hlist, Typelist.contains_eq_decide_mem]
    simp
  rw [← hall]
  simp [Reglist.strictAssert]

theorem strictResetTo_eq_ok_iff {σ : Type} {A : RegAccess σ} {trees : List (ListTree Element)}
    {regs : List Reg} {prog : σ → σ} :
    strictResetTo A trees regs = .ok prog ↔
      ∃ l, reglistOf trees = .ok l ∧ l.strictAssert regs = .ok () ∧
        ∃ strictList : Reglist, strictList.elements = strictElements regs l.elements ∧
          strictList.resetTo A = .ok prog := by
  simp only [strictResetTo, bind_eq_ok_iff, reglist_eq_ok_iff]
  refine exists_congr fun l => and_congr_right fun hl =>
    Unique.exists_iff.trans (and_congr_right fun _ => ?_)
  have hneutral : (neutralArgs regs).flatMap Typelist.argElements =
      (regs.map Reg.neutralRegmask).map Element.regmask := by
    rw [neutralArgs, List.flatMap_map, List.map_map]
    exact List.flatMap_pure_eq_map _ regs
  have helements : Typelist.typelist (neutralArgs regs ++ ListTree.args trees) =
      (strictElements regs l.elements).map Element.regmask := by
    rw [Typelist.typelist_eq, List.flatMap_append, hneutral, ListTree.flatMap_args,
      reglistOf_elements hl, strictElements, List.map_append]
  have hinj : Function.Injective (List.map Element.regmask) :=
    List.map_injective_iff.mpr fun a b h => Element.regmask.inj h
  refine exists_congr fun strictList => and_congr_left fun _ => ?_
  rw [helements, hinj.eq_iff]
  exact eq_comm

/-- The merge with a neutral regmask in front, as `reg::reset_to<>` writes it. -/
theorem Reg.resetTo_value {r : Reg} {rm : List RegmaskType} {prog : Bus → Bus}
    (h : r.resetTo busAccess rm = .ok prog) (b : Bus) :
    (prog b).file.value r = resetUnion r rm := by
  simp only [Reg.resetTo, bind_eq_ok_iff, pure_eq_ok_iff] at h
  obtain ⟨m, hm, -, -, rfl⟩ := h
  obtain ⟨hreg, -, -, hpatch⟩ := Reg.merge_eq_ok hm
  have hneutral : mergeAll (patches (r.neutralRegmask :: rm)) = mergeAll (patches rm) := by
    change r.neutralRegmask.patch.merge (mergeAll (patches rm)) = _
    rw [r.neutralRegmask_patch]
    ext1 <;> simp [neutral]
  have hvalue := resetToValue_of_patch hreg (hpatch.trans hneutral)
  have hlt : resetUnion r rm < 2 ^ r.width := hvalue ▸ hreg ▸ m.resetToValue_lt
  subst hreg
  change (b.file.store m.reg m.resetToValue).value m.reg = _
  rw [hvalue, b.file.store_value_of_lt m.reg hlt]

/-- Resetting first and setting the constants afterwards. -/
theorem Reg.reset_setConstants_value {r : Reg} {cfg : BitbandConfig} {rm0 : RegmaskType}
    {rm : List RegmaskType} {prog : Bus → Bus}
    (h : r.setConstants busAccess cfg rm0 rm = .ok prog) (b : Bus) :
    (prog (r.reset busAccess b)).file.value r = resetUnion r (rm0 :: rm) := by
  simp only [Reg.setConstants, bind_eq_ok_iff] at h
  obtain ⟨m, hm, hprog⟩ := h
  obtain ⟨hreg, -, -, hpatch⟩ := Reg.merge_eq_ok hm
  have hacts := m.set_acts cfg
  rw [(functorRegSet_eq_ok_iff.mp hprog).2.2, hreg, hpatch] at hacts
  have hreset : (r.reset busAccess b).file.value r = r.resetValue :=
    b.file.store_value_of_lt r r.resetValue_lt
  apply bits_injective
  rw [(hacts.becomes _).1, hreset, bits_resetUnion]

namespace Reglist

variable {l strictList : Reglist} {regs : List Reg} {prog : Bus → Bus}

theorem value_strict_of_mem (hs : strictList.elements = strictElements regs l.elements)
    (h : strictList.resetTo busAccess = .ok prog) (b : Bus) {r : Reg} (hr : r ∈ regs) :
    (prog b).file.value r = resetUnion r (onReg l.elements r) := by
  have hmem : ∃ t ∈ strictList.elements, t.reg = r := by
    rw [hs]
    exact mem_strictElements_reg.mpr (Or.inl hr)
  rw [value_resetTo_of_mem h b hmem, hs, resetUnion_strictElements]

/-- When all elements are on listed registers, only these are accessed. -/
theorem regs_strict_subset (hs : strictList.elements = strictElements regs l.elements)
    (hl : ∀ t ∈ l.elements, t.reg ∈ regs) {t : RegmaskType}
    (ht : t ∈ strictList.elements) : t.reg ∈ regs := by
  rw [hs] at ht
  rcases mem_strictElements_reg.mp ⟨t, ht, rfl⟩ with hr | ⟨u, hu, hreg⟩
  · exact hr
  · exact hreg ▸ hl u hu

theorem accesses_strict (hs : strictList.elements = strictElements regs l.elements)
    (hl : ∀ t ∈ l.elements, t.reg ∈ regs) (h : strictList.resetTo busAccess = .ok prog)
    (file : RegFile) : ∀ a ∈ (prog (Bus.start file)).accesses, a.reg ∈ regs := by
  have hstart : (Bus.start file).accesses = [] := rfl
  rw [accesses_resetTo h, hstart, List.nil_append]
  intro a ha
  obtain ⟨r, hr, rfl⟩ := List.mem_map.mp ha
  obtain ⟨t, ht, hreg⟩ := mem_regs.mp hr
  exact hreg ▸ regs_strict_subset hs hl ht

end Reglist

theorem exists_strictResetTo_iff {σ : Type} {A : RegAccess σ} {trees : List (ListTree Element)}
    {l : Reglist} (h : reglistOf trees = .ok l) (regs : List Reg) :
    (∃ prog, strictResetTo A trees regs = .ok prog) ↔
      (∀ t ∈ l.elements, t.reg ∈ regs) ∧ ∀ r ∈ regs, r.permission ≠ .ro := by
  simp only [strictResetTo_eq_ok_iff]
  constructor
  · rintro ⟨prog, l', hl', hassert, strictList, hs, hprog⟩
    obtain rfl : l' = l := Except.ok.inj (hl'.symm.trans h)
    refine ⟨(Reglist.strictAssert_eq_ok_iff _ _).mp hassert, fun r hr => ?_⟩
    obtain ⟨t, ht, rfl⟩ := mem_strictElements_reg.mpr (Or.inl hr)
    exact Reglist.exists_resetTo_iff.mp ⟨prog, hprog⟩ t (hs ▸ ht)
  · rintro ⟨hleaves, hperm⟩
    obtain ⟨strictList, hs⟩ := l.exists_strictList regs
    obtain ⟨prog, hprog⟩ := (Reglist.exists_resetTo_iff (l := strictList)).mpr fun t ht =>
      hperm t.reg (Reglist.regs_strict_subset hs hleaves ht)
    exact ⟨prog, l, h, (Reglist.strictAssert_eq_ok_iff _ _).mpr hleaves, strictList, hs, hprog⟩

theorem regmaskLeaves_of_reglistOf {trees : List (ListTree Element)} {l : Reglist}
    (h : reglistOf trees = .ok l) : regmaskLeaves trees = l.elements := by
  rw [regmaskLeaves, reglistOf_elements h, regmaskElements_map_regmask]

/-- The strict reset: when it is accepted, what it leaves behind, and the two
other ways to reach the same value on one register. -/
theorem strictResetTo_resets_listed_registers {trees : List (ListTree Element)}
    {l : Reglist} (h : reglistOf trees = .ok l) (regs : List Reg) :
    (l.strictAssert regs = .ok () ↔ ∀ t ∈ regmaskLeaves trees, t.reg ∈ regs) ∧
    ((∃ prog, strictResetTo busAccess trees regs = .ok prog) ↔
      (∀ t ∈ regmaskLeaves trees, t.reg ∈ regs) ∧ ∀ r ∈ regs, r.permission ≠ .ro) ∧
    (∀ prog, strictResetTo busAccess trees regs = .ok prog → ∀ file : RegFile,
      (∀ r ∈ regs, (prog (Bus.start file)).file.value r =
          resetUnion r (onReg (regmaskLeaves trees) r)) ∧
        (∀ r ∈ regs, (∀ t ∈ regmaskLeaves trees, t.reg ≠ r) →
          (prog (Bus.start file)).file.value r = r.resetValue) ∧
        (∀ r, r ∉ regs → (prog (Bus.start file)).file.value r = file.value r) ∧
        ∀ a ∈ (prog (Bus.start file)).accesses, a.reg ∈ regs) ∧
    (∀ r, regs = [r] → ∀ b : Bus,
      (∀ prog, strictResetTo busAccess trees regs = .ok prog →
        (prog b).file.value r = resetUnion r (regmaskLeaves trees)) ∧
      (∀ prog, r.resetTo busAccess (regmaskLeaves trees) = .ok prog →
        (prog b).file.value r = resetUnion r (regmaskLeaves trees)) ∧
      (∀ cfg rm0 rm prog, regmaskLeaves trees = rm0 :: rm →
        r.setConstants busAccess cfg rm0 rm = .ok prog →
        (prog (r.reset busAccess b)).file.value r = resetUnion r (regmaskLeaves trees))) := by
  rw [regmaskLeaves_of_reglistOf h]
  have hstrict : ∀ prog, strictResetTo busAccess trees regs = .ok prog →
      (∀ t ∈ l.elements, t.reg ∈ regs) ∧ ∃ strictList : Reglist,
        strictList.elements = strictElements regs l.elements ∧
          strictList.resetTo busAccess = .ok prog := by
    intro prog hprog
    obtain ⟨l', hl', hassert, hstrictList⟩ := strictResetTo_eq_ok_iff.mp hprog
    obtain rfl : l' = l := Except.ok.inj (hl'.symm.trans h)
    exact ⟨(Reglist.strictAssert_eq_ok_iff _ _).mp hassert, hstrictList⟩
  refine ⟨l.strictAssert_eq_ok_iff regs, exists_strictResetTo_iff h regs, ?_, ?_⟩
  · intro prog hprog file
    obtain ⟨hleaves, strictList, hs, hreset⟩ := hstrict prog hprog
    refine ⟨?_, ?_, ?_, Reglist.accesses_strict hs hleaves hreset file⟩
    · intro r hr
      exact Reglist.value_strict_of_mem hs hreset (Bus.start file) hr
    · intro r hr hnone
      have hnil : onReg l.elements r = [] :=
        onReg_eq_nil_iff.mpr fun hmem => by
          obtain ⟨t, ht, hreg⟩ := List.mem_map.mp hmem
          exact hnone t ht hreg
      rw [Reglist.value_strict_of_mem hs hreset (Bus.start file) hr, hnil, resetUnion_nil]
    · intro r hr
      refine Reglist.value_resetTo_of_not_mem hreset (Bus.start file) fun t ht hreg => ?_
      exact hr (hreg ▸ Reglist.regs_strict_subset hs hleaves ht)
  · rintro r rfl b
    refine ⟨?_, fun prog hprog => Reg.resetTo_value hprog b, ?_⟩
    · intro prog hprog
      obtain ⟨hleaves, strictList, hs, hreset⟩ := hstrict prog hprog
      have hall : ∀ t ∈ l.elements, t.reg = r := fun t ht =>
        List.mem_singleton.mp (hleaves t ht)
      rw [Reglist.value_strict_of_mem hs hreset b List.mem_cons_self, onReg_eq_self hall]
    · intro cfg rm0 rm prog hrm hprog
      rw [hrm]
      exact Reg.reset_setConstants_value hprog b

namespace ReglistTest

theorem strictResetTo_resets_listed_registers_treeAB :
    ∃ prog, strictResetTo busAccess [treeAB] [regA, regB, regC] = .ok prog ∧
      ∀ file, (prog (Bus.start file)).file.value regA = 0x05 ∧
        (prog (Bus.start file)).file.value regB = 0x05 ∧
        (prog (Bus.start file)).file.value regC = 0xff := by
  have hspec := @strictResetTo_resets_listed_registers [treeAB] _ rfl
    [regA, regB, regC]
  refine ⟨_, rfl, fun file => ?_⟩
  obtain ⟨hlisted, hreset, -⟩ := hspec.2.2.1 _ rfl file
  exact ⟨hlisted regA (by decide), hlisted regB (by decide),
    hreset regC (by decide) (by decide)⟩

example : listAB.strictAssert [regA] = .error .notStrictRegType := by decide

end ReglistTest

end OpenMptl
