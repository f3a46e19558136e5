/-
The merged types of a register list.  De-duplication by type identity leaves
one merged type per register, because the merge only looks at the elements on
the register; this is what the member functions of a list rely on.
-/
import OpenMptl.RegmaskRun

namespace OpenMptl

open Patch

/-- `m` is what the elements on `r` merge into. -/
def Merged (elements : List RegmaskType) (r : Reg) (m : RegmaskType) : Prop :=
  packMergedRegmask (onReg elements r) = .ok m

theorem mapMergedRegmask_eq (t : RegmaskType) (list : List RegmaskType) :
    mapMergedRegmask t list = packMergedRegmask (onReg list t.reg) := by
  rw [mapMergedRegmask, Typelist.filter_eq]
  rfl

section Merged

variable {elements ms : List RegmaskType} {rs : List Reg} {r : Reg} {m : RegmaskType}

theorem Merged.spec (h : Merged elements r m) :
    m.reg = r ∧ AllCompatible (patches (onReg elements r)) ∧
      m.patch = mergeAll (patches (onReg elements r)) := by
  unfold Merged at h
  cases hts : onReg elements r with
  | nil => simp [hts, packMergedRegmask] at h
  | cons t ts =>
      rw [hts] at h
      obtain ⟨hreg, -, hcompat, hpatch⟩ := mergedRegmask_eq_ok h
      have ht : t.reg = r := (mem_onReg.mp (hts ▸ List.mem_cons_self)).2
      exact ⟨hreg.trans ht, hcompat, hpatch⟩

/-- The merge of all elements on a register has the unions of their masks. -/
theorem Merged.masks (h : Merged elements r m) :
    m.setMask = unionMask Regmask.setMask (onReg elements r) ∧
      m.clearMask = unionMask Regmask.clearMask (onReg elements r) :=
  masks_eq_union_of_patch h.spec.2.2

/-- A merged type belongs to one register, and a register has one merged type:
two spellings of the same merge cannot occur. -/
theorem Merged.biUnique (elements : List RegmaskType) :
    Relator.BiUnique (Merged elements) := by
  constructor
  · intro r q m hr hq
    exact hr.spec.1.symm.trans hq.spec.1
  · intro r m n hm hn
    exact Except.ok.inj (hm.symm.trans hn)

theorem onReg_eq_nil (h : List.Forall₂ (Merged elements) rs ms) (hr : r ∉ rs) :
    onReg ms r = [] := by
  induction h with
  | nil => rfl
  | @cons q m rs ms hm _ ih =>
      simp only [List.mem_cons, not_or] at hr
      have hne : m.reg ≠ r := hm.spec.1 ▸ Ne.symm hr.1
      rw [onReg_cons_of_ne hne, ih hr.2]

/-- On distinct registers each one finds its own merged type and no other. -/
theorem exists_onReg_eq_singleton (h : List.Forall₂ (Merged elements) rs ms)
    (hnodup : rs.Nodup) (hr : r ∈ rs) : ∃ m, Merged elements r m ∧ onReg ms r = [m] := by
  induction h with
  | nil => cases hr
  | @cons q m rs ms hm hms ih =>
      obtain ⟨hq, hrest⟩ := List.nodup_cons.mp hnodup
      by_cases hreg : m.reg = r
      · subst hreg
        have hmq := hm.spec.1
        refine ⟨m, hmq.symm ▸ hm, ?_⟩
        rw [onReg_cons_of_eq, onReg_eq_nil hms (hmq ▸ hq)]
      · have hne : r ≠ q := fun heq => hreg (hm.spec.1.trans heq.symm)
        obtain ⟨n, hn, hns⟩ := ih hrest ((List.mem_cons.mp hr).resolve_left hne)
        exact ⟨n, hn, by rw [onReg_cons_of_ne hreg, hns]⟩

end Merged

theorem onReg_eq_nil_iff {ts : List RegmaskType} {r : Reg} :
    onReg ts r = [] ↔ r ∉ ts.map (fun t => t.reg) := by
  simp only [List.eq_nil_iff_forall_not_mem, mem_onReg, List.mem_map, not_exists]

namespace Reglist

/-- The registers of a list, each at its first occurrence. -/
def regs (l : Reglist) : List Reg := (l.elements.map fun t => t.reg).eraseDups

theorem mem_regs {l : Reglist} {r : Reg} :
    r ∈ l.regs ↔ ∃ t ∈ l.elements, t.reg = r := by
  simp [regs, List.mem_eraseDups]

theorem regs_nodup (l : Reglist) : l.regs.Nodup := by
  rw [regs, ← Typelist.filterUnique_eq_eraseDups]
  exact Typelist.nodup_filterUnique _

theorem forall₂_mergedList (l : Reglist) :
    List.Forall₂ (Merged l.elements) (l.elements.map fun t => t.reg) l.mergedList := by
  rw [List.forall₂_map_left_iff]
  refine (mapM_eq_ok_iff.mp l.compiles).imp fun t m h => ?_
  rwa [mapMergedRegmask_eq] at h

/-- One merged type per register, in the order of first occurrence. -/
theorem forall₂_uniqueMergedList (l : Reglist) :
    List.Forall₂ (Merged l.elements) l.regs l.uniqueMergedList := by
  rw [regs, ← Typelist.filterUnique_eq_eraseDups]
  exact Typelist.forall₂_filterUnique (Merged.biUnique l.elements) l.forall₂_mergedList

/-- What `unique_merged_list` holds for a register. -/
theorem uniqueMergedList_cases (l : Reglist) (r : Reg) :
    (onReg l.elements r = [] ∧ onReg l.uniqueMergedList r = []) ∨
      ∃ m, Merged l.elements r m ∧ onReg l.uniqueMergedList r = [m] := by
  by_cases hr : r ∈ l.regs
  · exact Or.inr
      (exists_onReg_eq_singleton l.forall₂_uniqueMergedList l.regs_nodup hr)
  · refine Or.inl ⟨?_, onReg_eq_nil l.forall₂_uniqueMergedList hr⟩
    rw [onReg_eq_nil_iff]
    intro hmem
    exact hr (List.mem_eraseDups.mpr hmem)

theorem allCompatible_onReg (l : Reglist) (r : Reg) :
    AllCompatible (patches (onReg l.elements r)) := by
  rcases l.uniqueMergedList_cases r with ⟨hnil, -⟩ | ⟨m, hm, -⟩
  · rw [hnil]
    exact allCompatible_nil
  · exact hm.spec.2.1

theorem ofElements_eq_ok_iff {elements : List RegmaskType} {l : Reglist} :
    ofElements elements = .ok l ↔ l.elements = elements := by
  constructor
  · intro h
    unfold ofElements at h
    split at h
    · cases h
      rfl
    · cases h
  · rintro rfl
    unfold ofElements
    split
    · next merged hmerged =>
        have heq : merged = l.mergedList := Except.ok.inj (hmerged.symm.trans l.compiles)
        subst heq
        rfl
    · next e he => cases he.symm.trans l.compiles

/-- A list of regmasks is instantiated when the elements on each register merge. -/
theorem exists_ofElements {elements : List RegmaskType}
    (h : ∀ t ∈ elements, ∃ m, Merged elements t.reg m) :
    ∃ l, ofElements elements = .ok l := by
  have hmap : ∀ t ∈ elements, ∃ m, mapMergedRegmask t elements = .ok m := by
    intro t ht
    rw [mapMergedRegmask_eq]
    exact h t ht
  obtain ⟨mergedList, hmerged⟩ := mapM_isOk hmap
  exact ⟨⟨elements, mergedList, hmerged⟩, ofElements_eq_ok_iff.mpr rfl⟩

end Reglist

/-! The elements of a list that is written as a tree. -/

theorem mapM_asRegmask_eq_ok_iff {es : List Element} {ts : List RegmaskType} :
    es.mapM Element.asRegmask = .ok ts ↔ es = ts.map Element.regmask := by
  rw [mapM_eq_ok_iff]
  constructor
  · intro h
    induction h with
    | nil => rfl
    | @cons e t es ts he _ ih =>
        cases e <;> simp [Element.asRegmask] at he
        rw [he, ih]
        rfl
  · rintro rfl
    rw [List.forall₂_map_left_iff, List.forall₂_same]
    exact fun t _ => rfl

theorem reglist_eq_ok_iff {args : List (Option (ListArg Element))} {l : Reglist} :
    reglist args = .ok l ↔ Typelist.typelist args = l.elements.map Element.regmask := by
  simp only [reglist, bind_eq_ok_iff, mapM_asRegmask_eq_ok_iff,
    Reglist.ofElements_eq_ok_iff]
  constructor
  · rintro ⟨ts, hts, rfl⟩
    exact hts
  · intro h
    exact ⟨_, h, rfl⟩

/-- The regmasks among some elements. -/
def regmaskElements (es : List Element) : List RegmaskType :=
  es.filterMap fun e => e.asRegmask.toOption

/-- The regmask leaves of some trees, from left to right. -/
def regmaskLeaves (trees : List (ListTree Element)) : List RegmaskType :=
  regmaskElements (ListTree.leavesAll trees)

theorem regmaskElements_map_regmask (ts : List RegmaskType) :
    regmaskElements (ts.map Element.regmask) = ts := by
  induction ts with
  | nil => rfl
  | cons t ts ih =>
      change t :: regmaskElements (ts.map Element.regmask) = _
      rw [ih]

theorem filter_isRegmask (es : List Element) :
    es.filter Element.isRegmask = (regmaskElements es).map Element.regmask := by
  induction es with
  | nil => rfl
  | cons e es ih =>
      cases e with
      | regmask t => exact congrArg (Element.regmask t :: ·) ih
      | reg r => exact ih
      | irqHandler h => exact ih
      | other name => exact ih

/-- `make_reglist<>` loses no regmask leaf and adds none. -/
theorem makeReglist_elements {trees : List (ListTree Element)} {l : Reglist}
    (h : makeReglist trees = .ok l) : l.elements = regmaskLeaves trees := by
  simp only [makeReglist, bind_eq_ok_iff, reglist_eq_ok_iff] at h
  obtain ⟨-, -, h⟩ := h
  rw [Typelist.typelist_eq, Typelist.filter_eq, ListTree.typelist_args,
    filter_isRegmask] at h
  simp only [List.flatMap_cons, List.flatMap_nil, List.append_nil,
    Typelist.argElements] at h
  have hmap := congrArg regmaskElements h
  rw [regmaskElements_map_regmask, regmaskElements_map_regmask] at hmap
  exact hmap.symm

theorem reglistOf_elements {trees : List (ListTree Element)} {l : Reglist}
    (h : reglistOf trees = .ok l) :
    ListTree.leavesAll trees = l.elements.map Element.regmask := by
  simp only [reglistOf, bind_eq_ok_iff, reglist_eq_ok_iff, ListTree.typelist_args] at h
  obtain ⟨-, -, h⟩ := h
  exact h

/-! The member `merged_regmask<>`. -/

namespace Reglist

theorem exists_reglist_uniqueMergedList (l : Reglist) :
    ∃ unique : Reglist, unique.elements = l.uniqueMergedList := by
  have hmerged : ∀ t ∈ l.uniqueMergedList, ∃ m, Merged l.uniqueMergedList t.reg m := by
    intro t ht
    rcases l.uniqueMergedList_cases t.reg with ⟨-, hnil⟩ | ⟨m, -, hm⟩
    · exact absurd (mem_onReg.mpr ⟨ht, rfl⟩) (hnil ▸ List.not_mem_nil)
    · exact ⟨m, by rw [Merged, hm]; rfl⟩
  obtain ⟨unique, hunique⟩ := exists_ofElements hmerged
  exact ⟨unique, ofElements_eq_ok_iff.mp hunique⟩

/-- The member sees the merged type of a register, and `unique_element` never
finds a second one. -/
theorem mergedRegmask_eq (l : Reglist) (r : Reg) :
    l.mergedRegmask r = Typelist.uniqueElement (onReg l.uniqueMergedList r) := by
  obtain ⟨unique, hunique⟩ := l.exists_reglist_uniqueMergedList
  have hreglist :
      reglist [some (.list (l.uniqueMergedList.map Element.regmask))] = .ok unique := by
    rw [reglist_eq_ok_iff, Typelist.typelist_eq, hunique]
    simp [Typelist.argElements]
  rw [mergedRegmask, hreglist]
  change Typelist.uniqueElement (Typelist.filter unique.elements (filterRegType r)) = _
  rw [hunique, Typelist.filter_eq]
  rfl

end Reglist

/-! Elements of any class, for the lists inside a tree. -/

theorem mergedElement_regmask (t : RegmaskType) (ts : List RegmaskType) :
    mergedElement (.regmask t) (ts.map Element.regmask) =
      (mergedRegmask t ts).map Element.regmask := by
  induction ts generalizing t with
  | nil => rfl
  | cons u us ih =>
      simp only [List.map_cons, mergedElement, ih, mergedRegmask]
      cases mergedRegmask u us with
      | error e => rfl
      | ok rest =>
          simp only [Except.map, bind, Except.bind, Element.asRegmask]
          cases t.toRegmask.merge rest.toRegmask with
          | error e => rfl
          | ok merged => rfl

theorem mapMergedElement_regmask (t : RegmaskType) (ts : List RegmaskType) :
    mapMergedElement (.regmask t) (ts.map Element.regmask) =
      (mapMergedRegmask t ts).map Element.regmask := by
  have hregs : (ts.map Element.regmask).mapM Element.regType =
      .ok (ts.map fun u => u.reg) := by
    rw [mapM_eq_ok_iff, List.forall₂_map_left_iff, List.forall₂_map_right_iff,
      List.forall₂_same]
    exact fun u _ => rfl
  have hfilter : (Typelist.filter ((ts.map Element.regmask).zip (ts.map fun u => u.reg))
      fun p => decide (t.reg = p.2)).map Prod.fst = (onReg ts t.reg).map Element.regmask := by
    rw [Typelist.filter_eq, List.zip_map', List.filter_map, List.map_map]
    rfl
  rw [mapMergedRegmask_eq]
  simp only [mapMergedElement, Element.regType, hregs]
  change packMergedElement ((Typelist.filter _ _).map Prod.fst) = _
  rw [hfilter]
  cases onReg ts t.reg with
  | nil => rfl
  | cons u us => exact mergedElement_regmask u us

/-- On regmasks the class body accepts the same lists for any element class. -/
theorem checkReglist_regmask (ts : List RegmaskType) :
    checkReglist (ts.map Element.regmask) = .ok () ↔
      ∃ l, Reglist.ofElements ts = .ok l := by
  have hmap : ∀ {t n}, mapMergedElement (.regmask t) (ts.map Element.regmask) = .ok n ↔
      ∃ m, mapMergedRegmask t ts = .ok m ∧ Element.regmask m = n := by
    intro t n
    rw [mapMergedElement_regmask]
    cases mapMergedRegmask t ts <;> simp [Except.map]
  simp only [checkReglist, bind_eq_ok_iff, mapM_eq_ok_iff, pure_eq_ok_iff,
    List.forall₂_map_left_iff, hmap, and_true]
  constructor
  · rintro ⟨es, hes⟩
    apply Reglist.exists_ofElements
    intro t ht
    obtain ⟨n, -, m, hm, -⟩ := exists_of_mem_forall₂ hes ht
    exact ⟨m, by rwa [mapMergedRegmask_eq] at hm⟩
  · rintro ⟨l, hl⟩
    obtain rfl := Reglist.ofElements_eq_ok_iff.mp hl
    refine ⟨l.mergedList.map Element.regmask, ?_⟩
    rw [List.forall₂_map_right_iff]
    exact (mapM_eq_ok_iff.mp l.compiles).imp fun t m h => ⟨m, h, rfl⟩

end OpenMptl
