/-
Setting a value through a list of regmasks.  The merged clear mask decides which
bits of the old content go, but the value itself is not masked with it.
-/
import OpenMptl.Reglist
import OpenMptl.RegmaskRun

namespace OpenMptl

/-- A conflict-free list on the register merges into its union of masks. -/
theorem Reg.exists_merge {r : Reg} {rm0 : RegmaskType} {rm : List RegmaskType}
    (hreg : ∀ u ∈ rm0 :: rm, u.reg = r) (hfree : ConflictFree (rm0 :: rm)) :
    ∃ m, r.merge rm0 rm = .ok m ∧ m.reg = r ∧
      m.setMask = unionMask Regmask.setMask (rm0 :: rm) ∧
      m.clearMask = unionMask Regmask.clearMask (rm0 :: rm) := by
  have hhead : rm0.reg = r := hreg rm0 List.mem_cons_self
  have hrest : ∀ u ∈ rm, u.reg = rm0.reg :=
    fun u hu => (hreg u (List.mem_cons_of_mem rm0 hu)).trans hhead.symm
  obtain ⟨m, hm⟩ := (mergedRegmask_isOk_iff hrest).mpr hfree
  obtain ⟨hmReg, -, -, hpatch⟩ := mergedRegmask_eq_ok hm
  have hsame : m.reg = r := hmReg.trans hhead
  refine ⟨m, ?_, hsame, masks_eq_union_of_patch hpatch⟩
  rw [Reg.merge, hm, ok_bind, if_pos hsame]

/-- `set<Rm...>(value)` is accepted and stores the unmasked value. -/
theorem Reg.setValue_eq_ok {r : Reg} (hperm : r.permission = .rw) {rm0 : RegmaskType}
    {rm : List RegmaskType} (hreg : ∀ u ∈ rm0 :: rm, u.reg = r)
    (hfree : ConflictFree (rm0 :: rm)) (value : Nat) :
    r.setValue busAccess rm0 rm value =
      .ok (r.setClear busAccess value (unionMask Regmask.clearMask (rm0 :: rm))) := by
  obtain ⟨m, hm, -, -, hclear⟩ := Reg.exists_merge hreg hfree
  have hload : r.checkLoad = .ok () := by simp [Reg.checkLoad, hperm]
  have hstore : r.checkStore = .ok () := by simp [Reg.checkStore, hperm]
  rw [Reg.setValue, hm, ok_bind, hload, ok_bind, hstore, ok_bind, hclear]
  rfl

/-- Clearing under a mask and or-ing a value replaces the masked bits by those of
the value when its other bits are set anyway. -/
theorem sdiff_union_eq_iff {v c x : Set Nat} :
    v \ c ∪ x = v \ c ∪ x ∩ c ↔ x \ c ⊆ v := by
  constructor
  · rintro h i ⟨hx, hc⟩
    have hmem : i ∈ v \ c ∪ x ∩ c := h ▸ Or.inr hx
    rcases hmem with hv | hxc
    · exact hv.1
    · exact absurd hxc.2 hc
  · intro h
    ext i
    have hi : i ∈ x → i ∉ c → i ∈ v := fun hx hc => h ⟨hx, hc⟩
    simp only [Set.mem_union, Set.mem_sdiff, Set.mem_inter_iff]
    tauto

/-- Only the masked bits change when the other bits of the value are set already. -/
theorem reg_setValue_masked_iff {r : Reg} (hperm : r.permission = .rw) {rm0 : RegmaskType}
    {rm : List RegmaskType} (hreg : ∀ u ∈ rm0 :: rm, u.reg = r)
    (hfree : ConflictFree (rm0 :: rm)) {x : Nat} (hx : x < 2 ^ r.width) :
    ∃ command, r.setValue busAccess rm0 rm x = .ok command ∧ ∀ b : Bus,
      let mask := unionMask Regmask.clearMask (rm0 :: rm)
      let v := b.file.value r
      (command b).file.value r = (v &&& bitNot r.width mask) ||| (x &&& mask) ↔
        ∀ i, x.testBit i = true → mask.testBit i = false → v.testBit i = true := by
  refine ⟨_, Reg.setValue_eq_ok hperm hreg hfree x, fun b => ?_⟩
  have hv := b.file.value_lt r
  have hbits := (r.setClear_becomes hx (unionMask Regmask.clearMask (rm0 :: rm)) b).1
  dsimp only
  rw [← bits_injective.eq_iff, hbits, bits_or, bits_and_bitNot hv, bits_and,
    sdiff_union_eq_iff]
  constructor
  · intro h i hxi hmask
    exact h ⟨hxi, by simp [hmask]⟩
  · rintro h i ⟨hxi, hmask⟩
    exact h i hxi (by simpa using hmask)

namespace SetValueTest

/-- `TEST::REG` of the unit test. -/
def testReg : Reg := ⟨.uint32, 0, .rw, 0x55555555, by decide⟩

def bits47 : RegmaskType :=
  ⟨⟨testReg, 0x000000f0, 0x000000f0, by decide, by decide⟩, .regbits 0 4 4⟩

def cleared : Bus := Bus.start ⟨fun _ => 0, Reg.two_pow_width_pos⟩

theorem conflictFree_bits47 : ConflictFree [bits47] := by
  simp only [ConflictFree, List.mem_singleton]
  rintro a rfl b rfl i ⟨hset, -, hnot⟩
  rw [hset] at hnot
  cases hnot

/-- `REG::set<BITS_4_7>(0x51)` sets bit 0. -/
theorem reg_setValue_not_masked :
    ¬ ∀ command, testReg.setValue busAccess bits47 [] 0x51 = .ok command →
      (command cleared).file.value testReg =
        (cleared.file.value testReg &&& bitNot 32 0xf0) ||| (0x51 &&& 0xf0) := by
  intro h
  have hstored := h _ (Reg.setValue_eq_ok rfl (by decide) conflictFree_bits47 0x51)
  revert hstored
  decide

theorem reg_setValue_masked_iff_inside :
    ∃ command, testReg.setValue busAccess bits47 [] 0x50 = .ok command ∧
      (command cleared).file.value testReg = 0x50 := by
  obtain ⟨command, hok, hiff⟩ := reg_setValue_masked_iff rfl
    (by decide : ∀ u ∈ bits47 :: [], u.reg = testReg) conflictFree_bits47
    (by decide : 0x50 < 2 ^ testReg.width)
  refine ⟨command, hok, ((hiff cleared).mpr ?_).trans (by decide)⟩
  intro i hx hmask
  have hsub : bits 0x50 ⊆ bits (unionMask Regmask.clearMask [bits47]) :=
    (bits_subset_iff _ _).mpr (by decide)
  have hset := (mem_bits _ _).mp (hsub hx)
  rw [hmask] at hset
  cases hset

end SetValueTest

end OpenMptl
