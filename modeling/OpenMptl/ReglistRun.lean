/-
Running the member functions of a register list.  One merged command per
register does the work of one command per element, in any order of the elements.
-/
import OpenMptl.ReglistMerge

namespace OpenMptl

open Patch

theorem Reg.checkLoad_eq_ok_iff (r : Reg) : r.checkLoad = .ok () ↔ r.permission ≠ .wo := by
  simp [Reg.checkLoad]

theorem Reg.checkStore_eq_ok_iff (r : Reg) :
    r.checkStore = .ok () ↔ r.permission ≠ .ro := by
  simp [Reg.checkStore]

section Functors

variable {σ : Type} {A : RegAccess σ} {cfg : BitbandConfig} {t : RegmaskType} {c : σ → σ}

theorem functorRegSet_eq_ok_iff :
    functorRegSet A cfg t = .ok c ↔
      t.reg.permission ≠ .wo ∧ t.reg.permission ≠ .ro ∧ t.set A cfg = c := by
  simp only [functorRegSet, check_bind_eq_ok_iff, pure_eq_ok_iff,
    Reg.checkLoad_eq_ok_iff, Reg.checkStore_eq_ok_iff]

theorem functorRegClear_eq_ok (h : functorRegClear A cfg t = .ok c) : t.clear A cfg = c := by
  unfold functorRegClear at h
  split at h
  · cases h
  · simp only [bind_eq_ok_iff, pure_eq_ok_iff] at h
    obtain ⟨-, -, -, -, h⟩ := h
    exact h

theorem functorRegResetTo_eq_ok_iff :
    functorRegResetTo A t = .ok c ↔ t.reg.permission ≠ .ro ∧ t.resetTo A = c := by
  simp only [functorRegResetTo, check_bind_eq_ok_iff, pure_eq_ok_iff,
    Reg.checkStore_eq_ok_iff]

end Functors

/-- Call `set()` on each element separately. -/
def setEach (cfg : BitbandConfig) (ts : List RegmaskType) : Bus → Bus :=
  runAll (ts.map fun t => t.set busAccess cfg)

/-- Call `clear()` on each element separately. -/
def clearEach (cfg : BitbandConfig) (ts : List RegmaskType) : Bus → Bus :=
  runAll (ts.map fun t => t.clear busAccess cfg)

/-- Call `reg::clear(clear_mask)` for each element separately. -/
def clearEachMask (ts : List RegmaskType) : Bus → Bus :=
  runAll (ts.map fun t => t.reg.clear busAccess t.clearMask)

theorem patches_mem_iff_of_perm {ts us : List RegmaskType} (h : ts.Perm us) (r : Reg)
    (p : Patch (Set Nat)) : p ∈ patches (onReg ts r) ↔ p ∈ patches (onReg us r) := by
  simp only [patches, List.mem_map, mem_onReg, h.mem_iff]

theorem bits_setEach (cfg : BitbandConfig) (ts : List RegmaskType) (b : Bus) (r : Reg) :
    bits ((setEach cfg ts b).file.value r) =
      applyAll (patches (onReg ts r)) (bits (b.file.value r)) := by
  have hacts : List.Forall₂ (fun t c => Acts c t.reg t.patch.apply (t.clearMask ≠ 0)) ts
      (ts.map fun t => t.set busAccess cfg) := by
    rw [List.forall₂_map_right_iff, List.forall₂_same]
    exact fun t _ => t.set_acts cfg
  rw [setEach, bits_runAll hacts, applyAll, patches, List.foldl_map]

theorem bits_runAll_clear {ts : List RegmaskType} {command : RegmaskType → Bus → Bus}
    {active : RegmaskType → Prop}
    (h : ∀ t, Acts (command t) t.reg (fun v => v \ t.patch.clear) (active t)) (b : Bus)
    (r : Reg) :
    bits ((runAll (ts.map command) b).file.value r) =
      bits (b.file.value r) \ (mergeAll (patches (onReg ts r))).clear := by
  have hacts : List.Forall₂ (fun t c => Acts c t.reg (fun v => v \ t.patch.clear) (active t))
      ts (ts.map command) := by
    rw [List.forall₂_map_right_iff, List.forall₂_same]
    exact fun t _ => h t
  rw [bits_runAll hacts, ← foldl_sdiff_clear, patches, List.foldl_map]

theorem bits_clearEach (cfg : BitbandConfig) (ts : List RegmaskType) (b : Bus) (r : Reg) :
    bits ((clearEach cfg ts b).file.value r) =
      bits (b.file.value r) \ (mergeAll (patches (onReg ts r))).clear :=
  bits_runAll_clear (fun t => t.clear_acts cfg) b r

theorem bits_clearEachMask (ts : List RegmaskType) (b : Bus) (r : Reg) :
    bits ((clearEachMask ts b).file.value r) =
      bits (b.file.value r) \ (mergeAll (patches (onReg ts r))).clear :=
  bits_runAll_clear (fun t => t.reg.clear_acts t.clearMask trivial) b r

namespace Reglist

variable {l : Reglist} {cfg : BitbandConfig} {prog : Bus → Bus}

theorem set_acts (h : l.set busAccess cfg = .ok prog) :
    ∃ commands, prog = runAll commands ∧ List.Forall₂
      (fun t c => Acts c t.reg t.patch.apply (t.clearMask ≠ 0)) l.uniqueMergedList
        commands := by
  obtain ⟨commands, hcommands, rfl⟩ := Typelist.forEach_eq_ok_iff.mp h
  refine ⟨commands, rfl, hcommands.imp fun t c hc => ?_⟩
  exact (functorRegSet_eq_ok_iff.mp hc).2.2 ▸ t.set_acts cfg

theorem clear_acts (h : l.clear busAccess cfg = .ok prog) :
    ∃ commands, prog = runAll commands ∧ List.Forall₂
      (fun t c => Acts c t.reg (fun v => v \ t.patch.clear) (t.clearMask ≠ 0))
        l.uniqueMergedList commands := by
  obtain ⟨commands, hcommands, rfl⟩ := Typelist.forEach_eq_ok_iff.mp h
  refine ⟨commands, rfl, hcommands.imp fun t c hc => ?_⟩
  exact functorRegClear_eq_ok hc ▸ t.clear_acts cfg

/-- `set()` applies the merge of all elements on each register. -/
theorem bits_set (h : l.set busAccess cfg = .ok prog) (b : Bus) (r : Reg) :
    bits ((prog b).file.value r) =
      (mergeAll (patches (onReg l.elements r))).apply (bits (b.file.value r)) := by
  obtain ⟨commands, rfl, hacts⟩ := set_acts h
  rw [bits_runAll hacts]
  rcases l.uniqueMergedList_cases r with ⟨hnil, hunique⟩ | ⟨m, hm, hunique⟩
  · simp [hnil, hunique, patches, Patch.apply, neutral]
  · simp [hunique, hm.spec.2.2]

theorem bits_clear (h : l.clear busAccess cfg = .ok prog) (b : Bus) (r : Reg) :
    bits ((prog b).file.value r) =
      bits (b.file.value r) \ (mergeAll (patches (onReg l.elements r))).clear := by
  obtain ⟨commands, rfl, hacts⟩ := clear_acts h
  rw [bits_runAll hacts]
  rcases l.uniqueMergedList_cases r with ⟨hnil, hunique⟩ | ⟨m, hm, hunique⟩
  · simp [hnil, hunique, patches, neutral]
  · rw [hunique, List.foldl_cons, List.foldl_nil, hm.spec.2.2]

/-- A merged type with a non-empty mask has an element with one. -/
theorem exists_active_element {m : RegmaskType} (hm : m ∈ l.uniqueMergedList)
    (hactive : m.clearMask ≠ 0) : ∃ t ∈ l.elements, t.reg = m.reg ∧ t.clearMask ≠ 0 := by
  have hmem : m ∈ onReg l.uniqueMergedList m.reg := mem_onReg.mpr ⟨hm, rfl⟩
  rcases l.uniqueMergedList_cases m.reg with ⟨-, hunique⟩ | ⟨n, hn, hunique⟩
  · exact absurd hmem (hunique ▸ List.not_mem_nil)
  · obtain rfl := List.mem_singleton.mp (hunique ▸ hmem)
    by_contra hnone
    refine hactive ((bits_eq_empty_iff _).mp (Set.subset_eq_empty ?_ rfl))
    change m.patch.clear ⊆ ∅
    rw [hn.spec.2.2]
    refine (mergeAll_clear_le_iff _ _).mpr fun p hp => ?_
    obtain ⟨t, ht, rfl⟩ := List.mem_map.mp hp
    obtain ⟨htl, htr⟩ := mem_onReg.mp ht
    have hzero : t.clearMask = 0 := by
      by_contra hne
      exact hnone ⟨t, htl, htr, hne⟩
    simp [hzero]

theorem accesses_of_active {content : RegmaskType → Set Nat → Set Nat}
    {commands : List (Bus → Bus)}
    (h : List.Forall₂ (fun t c => Acts c t.reg (content t) (t.clearMask ≠ 0))
      l.uniqueMergedList commands) (b : Bus) :
    ∃ seen, (runAll commands b).accesses = b.accesses ++ seen ∧
      ∀ a ∈ seen, ∃ t ∈ l.elements, t.reg = a.reg ∧ t.clearMask ≠ 0 := by
  obtain ⟨seen, hseen, hactive⟩ := accesses_runAll h b
  refine ⟨seen, hseen, fun a ha => ?_⟩
  obtain ⟨m, hm, hreg, hne⟩ := hactive a ha
  obtain ⟨t, ht, htr, htne⟩ := exists_active_element hm hne
  exact ⟨t, ht, htr.trans hreg.symm, htne⟩

end Reglist

namespace Reg

variable {r : Reg} {rm0 m : RegmaskType} {rm : List RegmaskType}

theorem merge_eq_ok (h : r.merge rm0 rm = .ok m) :
    m.reg = r ∧ (∀ t ∈ rm0 :: rm, t.reg = r) ∧ AllCompatible (patches (rm0 :: rm)) ∧
      m.patch = mergeAll (patches (rm0 :: rm)) := by
  simp only [merge, bind_eq_ok_iff] at h
  obtain ⟨type, htype, hr⟩ := h
  split at hr
  · next hreg =>
      cases hr
      obtain ⟨hm, hall, hcompat, hpatch⟩ := mergedRegmask_eq_ok htype
      have h0 : rm0.reg = r := hm.symm.trans hreg
      refine ⟨hreg, ?_, hcompat, hpatch⟩
      simp only [List.mem_cons, forall_eq_or_imp]
      exact ⟨h0, fun t ht => (hall t ht).trans h0⟩
  · cases hr

end Reg

theorem onReg_eq_self {ts : List RegmaskType} {r : Reg} (h : ∀ t ∈ ts, t.reg = r) :
    onReg ts r = ts := by
  refine List.filter_eq_self.mpr fun t ht => ?_
  simp [filterRegType, h t ht]

theorem onReg_eq_nil_of_ne {ts : List RegmaskType} {q r : Reg} (h : ∀ t ∈ ts, t.reg = r)
    (hq : q ≠ r) : onReg ts q = [] := by
  refine List.eq_nil_iff_forall_not_mem.mpr fun t ht => hq ?_
  obtain ⟨hmem, hreg⟩ := mem_onReg.mp ht
  exact hreg.symm.trans (h t hmem)

/-- One command with the merge of all arguments leaves the same file as a run
that leaves on each register what the merge of its arguments leaves. -/
theorem file_eq_of_acts (content : Patch (Set Nat) → Set Nat → Set Nat)
    {command : Bus → Bus} {r : Reg} {ts : List RegmaskType} {active : Prop}
    (hneutral : ∀ v, content neutral v = v) (hregs : ∀ t ∈ ts, t.reg = r)
    (h : Acts command r (content (mergeAll (patches ts))) active) {b b' : Bus}
    (hb' : ∀ q, bits (b'.file.value q) =
      content (mergeAll (patches (onReg ts q))) (bits (b.file.value q))) :
    (command b).file = b'.file := by
  obtain ⟨hsame, hother⟩ := h.becomes b
  refine RegFile.ext_bits fun q => ?_
  by_cases hq : q = r
  · subst hq
    rw [hb', onReg_eq_self hregs, hsame]
  · rw [hb', onReg_eq_nil_of_ne hregs hq, hother q hq]
    simp [patches, hneutral]

section Sequential

variable {l : Reglist} {cfg : BitbandConfig} {prog : Bus → Bus} {r : Reg}
  {rm0 : RegmaskType} {rm ts : List RegmaskType}

theorem Reglist.file_set_eq (h : l.set busAccess cfg = .ok prog)
    (hperm : ts.Perm l.elements) (b : Bus) : (prog b).file = (setEach cfg ts b).file := by
  refine RegFile.ext_bits fun r => ?_
  have hmem := patches_mem_iff_of_perm hperm r
  rw [Reglist.bits_set h, bits_setEach,
    ← applyAll_eq_apply_mergeAll (l.allCompatible_onReg r)]
  exact applyAll_eq_of_mem_iff (l.allCompatible_onReg r) (fun p => (hmem p).symm) _

theorem Reglist.file_clear_eq (h : l.clear busAccess cfg = .ok prog)
    (hperm : ts.Perm l.elements) (b : Bus) : (prog b).file = (clearEachMask ts b).file := by
  refine RegFile.ext_bits fun r => ?_
  rw [Reglist.bits_clear h, bits_clearEachMask,
    mergeAll_eq_of_mem_iff (patches_mem_iff_of_perm hperm r)]

theorem Reg.file_setConstants_eq (h : r.setConstants busAccess cfg rm0 rm = .ok prog)
    (hperm : ts.Perm (rm0 :: rm)) (b : Bus) :
    (prog b).file = (setEach cfg ts b).file := by
  simp only [Reg.setConstants, bind_eq_ok_iff] at h
  obtain ⟨m, hm, hprog⟩ := h
  obtain ⟨hreg, hregs, hcompat, hpatch⟩ := Reg.merge_eq_ok hm
  have hacts := m.set_acts cfg
  rw [(functorRegSet_eq_ok_iff.mp hprog).2.2, hreg, hpatch] at hacts
  have hneutral : ∀ v : Set Nat, neutral.apply v = v := fun v => by
    simp [Patch.apply, neutral]
  refine file_eq_of_acts Patch.apply hneutral hregs hacts fun q => ?_
  have hq : AllCompatible (patches (onReg (rm0 :: rm) q)) := by
    refine hcompat.of_subset fun p hp => ?_
    obtain ⟨t, ht, rfl⟩ := List.mem_map.mp hp
    exact List.mem_map_of_mem (mem_onReg.mp ht).1
  rw [bits_setEach, ← applyAll_eq_apply_mergeAll hq]
  exact (applyAll_eq_of_mem_iff hq
    (fun p => (patches_mem_iff_of_perm hperm q p).symm) _).symm

theorem Reg.file_clearMasks_eq (h : r.clearMasks busAccess cfg rm0 rm = .ok prog)
    (hperm : ts.Perm (rm0 :: rm)) (b : Bus) :
    (prog b).file = (clearEach cfg ts b).file ∧
      (prog b).file = (clearEachMask ts b).file := by
  simp only [Reg.clearMasks, bind_eq_ok_iff] at h
  obtain ⟨m, hm, hprog⟩ := h
  obtain ⟨hreg, hregs, -, hpatch⟩ := Reg.merge_eq_ok hm
  have hacts := m.clear_acts cfg
  rw [functorRegClear_eq_ok hprog, hreg, hpatch] at hacts
  have hneutral : ∀ v : Set Nat, v \ (neutral : Patch (Set Nat)).clear = v := fun v => by
    simp [neutral]
  have hmerge : ∀ q, mergeAll (patches (onReg ts q)) =
      mergeAll (patches (onReg (rm0 :: rm) q)) := fun q =>
    mergeAll_eq_of_mem_iff (patches_mem_iff_of_perm hperm q)
  constructor
  · refine file_eq_of_acts (fun p v => v \ p.clear) hneutral hregs hacts fun q => ?_
    rw [bits_clearEach, hmerge]
  · refine file_eq_of_acts (fun p v => v \ p.clear) hneutral hregs hacts fun q => ?_
    rw [bits_clearEachMask, hmerge]

theorem Reglist.accesses_set_clear
    (h : l.set busAccess cfg = .ok prog ∨ l.clear busAccess cfg = .ok prog) (b : Bus) :
    ∃ seen, (prog b).accesses = b.accesses ++ seen ∧
      ∀ a ∈ seen, ∃ t ∈ l.elements, t.reg = a.reg ∧ t.clearMask ≠ 0 := by
  rcases h with h | h
  · obtain ⟨commands, rfl, hacts⟩ := Reglist.set_acts h
    exact Reglist.accesses_of_active hacts b
  · obtain ⟨commands, rfl, hacts⟩ := Reglist.clear_acts h
    exact Reglist.accesses_of_active hacts b

end Sequential

/-- Merged `set()` and `clear()` against the separate calls, in any order; empty
masks do not reach the bus. -/
theorem reglist_set_clear_eq_sequential (cfg : BitbandConfig) :
    (∀ (l : Reglist) (prog : Bus → Bus), l.set busAccess cfg = .ok prog →
      ∀ ts : List RegmaskType, ts.Perm l.elements →
        ∀ b, (prog b).file = (setEach cfg ts b).file) ∧
    (∀ (l : Reglist) (prog : Bus → Bus), l.clear busAccess cfg = .ok prog →
      ∀ ts : List RegmaskType, ts.Perm l.elements →
        ∀ b, (prog b).file = (clearEachMask ts b).file) ∧
    (∀ (r : Reg) (rm0 : RegmaskType) (rm : List RegmaskType) (prog : Bus → Bus),
      r.setConstants busAccess cfg rm0 rm = .ok prog →
      ∀ ts : List RegmaskType, ts.Perm (rm0 :: rm) →
        ∀ b, (prog b).file = (setEach cfg ts b).file) ∧
    (∀ (r : Reg) (rm0 : RegmaskType) (rm : List RegmaskType) (prog : Bus → Bus),
      r.clearMasks busAccess cfg rm0 rm = .ok prog →
      ∀ ts : List RegmaskType, ts.Perm (rm0 :: rm) →
        ∀ b, (prog b).file = (clearEach cfg ts b).file ∧
          (prog b).file = (clearEachMask ts b).file) ∧
    (∀ (l : Reglist) (prog : Bus → Bus),
      (l.set busAccess cfg = .ok prog ∨ l.clear busAccess cfg = .ok prog) →
      ∀ b, ∃ seen, (prog b).accesses = b.accesses ++ seen ∧
        ∀ a ∈ seen, ∃ t ∈ l.elements, t.reg = a.reg ∧ t.clearMask ≠ 0) ∧
    (∀ t : RegmaskType, t.clearMask = 0 → ∀ b : Bus,
      t.set busAccess cfg b = b ∧ t.clear busAccess cfg b = b) := by
  refine ⟨?_, ?_, ?_, ?_, ?_, ?_⟩
  · intro l prog h ts hperm b
    exact Reglist.file_set_eq h hperm b
  · intro l prog h ts hperm b
    exact Reglist.file_clear_eq h hperm b
  · intro r rm0 rm prog h ts hperm b
    exact Reg.file_setConstants_eq h hperm b
  · intro r rm0 rm prog h ts hperm b
    exact Reg.file_clearMasks_eq h hperm b
  · intro l prog h b
    exact Reglist.accesses_set_clear h b
  · intro t ht b
    exact ⟨Regmask.set_of_clearMask_eq_zero busAccess cfg ht b,
      Regmask.clear_of_clearMask_eq_zero busAccess cfg ht b⟩

namespace ReglistTest

/-- `using A = reg< uint32_t, 0x00, rw, 0 >` -/
def regA : Reg := ⟨.uint32, 0x00, .rw, 0, ValueType.two_pow_width_pos _⟩

/-- `using B = reg< uint16_t, 0x04, rw, 0 >` -/
def regB : Reg := ⟨.uint16, 0x04, .rw, 0, ValueType.two_pow_width_pos _⟩

/-- `using C = reg< uint8_t, 0x08, rw, 0xff >` -/
def regC : Reg := ⟨.uint8, 0x08, .rw, 0xff, by decide⟩

def a0 : RegmaskType := ⟨⟨regA, 0x01, 0x01, by decide, by decide⟩, .regmask 0⟩

def a2 : RegmaskType := ⟨⟨regA, 0x04, 0x04, by decide, by decide⟩, .regmask 0⟩

def b0 : RegmaskType := ⟨⟨regB, 0x01, 0x01, by decide, by decide⟩, .regmask 0⟩

def b2 : RegmaskType := ⟨⟨regB, 0x04, 0x04, by decide, by decide⟩, .regmask 0⟩

/-- The elements of `list_AB`. -/
def listAB : Reglist where
  elements := [a0, b2, a2, a0, a2, b0]
  mergedList := [⟨⟨regA, 0x05, 0x05, by decide, by decide⟩, .regmask 0⟩,
    ⟨⟨regB, 0x05, 0x05, by decide, by decide⟩, .regmask 0⟩,
    ⟨⟨regA, 0x05, 0x05, by decide, by decide⟩, .regmask 0⟩,
    ⟨⟨regA, 0x05, 0x05, by decide, by decide⟩, .regmask 0⟩,
    ⟨⟨regA, 0x05, 0x05, by decide, by decide⟩, .regmask 0⟩,
    ⟨⟨regB, 0x05, 0x05, by decide, by decide⟩, .regmask 0⟩]
  compiles := by rfl

theorem reglist_set_clear_eq_sequential_listAB :
    ∃ prog, listAB.set busAccess .automatic = .ok prog ∧
      ∀ b, (prog b).file = (setEach .automatic [b0, a2, a0, a2, b2, a0] b).file :=
  ⟨_, rfl, (reglist_set_clear_eq_sequential .automatic).1 listAB _ rfl
    [b0, a2, a0, a2, b2, a0] (by decide)⟩

end ReglistTest

end OpenMptl
