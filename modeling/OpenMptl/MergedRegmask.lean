/-
When a list of regmasks merges, and into what.  The fold checks each head
against the merged rest only; the patch algebra turns this into the pairwise
condition, which does not see order, grouping or repetition.
-/
import OpenMptl.Checked
import OpenMptl.Regmask

namespace OpenMptl

open Patch

/-- A regmask acts on the bits of its register as a patch. -/
def Regmask.patch (t : Regmask) : Patch (Set Nat) :=
  ⟨bits t.setMask, bits t.clearMask, (bits_subset_iff _ _).mpr t.covers⟩

@[simp] theorem Regmask.patch_set (t : Regmask) : t.patch.set = bits t.setMask := rfl

@[simp] theorem Regmask.patch_clear (t : Regmask) :
    t.patch.clear = bits t.clearMask := rfl

/-- `merge<>` is accepted on one register when the patches are compatible. -/
theorem Regmask.merge_isOk_iff (t rm : Regmask) :
    (∃ m, t.merge rm = .ok m) ↔ rm.reg = t.reg ∧ t.patch.Compatible rm.patch := by
  have hfirst := and_bitNot_eq_zero_iff
    (Nat.and_le_right.trans_lt t.clearMask_lt : rm.setMask &&& t.clearMask < _) t.setMask
  have hsecond := and_bitNot_eq_zero_iff
    (Nat.and_le_left.trans_lt t.setMask_lt : t.setMask &&& rm.clearMask < _) rm.setMask
  rw [bits_and] at hfirst hsecond
  have hcompat : t.patch.Compatible rm.patch ↔
      bits t.setMask ∩ bits rm.clearMask ⊆ bits rm.setMask ∧
        bits rm.setMask ∩ bits t.clearMask ⊆ bits t.setMask := Iff.rfl
  rw [hcompat, ← hfirst, ← hsecond]
  by_cases hreg : rm.reg = t.reg
  · by_cases h₁ : (rm.setMask &&& t.clearMask) &&& bitNot t.reg.width t.setMask = 0
    · by_cases h₂ : (t.setMask &&& rm.clearMask) &&& bitNot t.reg.width rm.setMask = 0
      · simp [Regmask.merge, hreg, h₁, h₂]
      · simp [Regmask.merge, hreg, h₁, h₂]
    · simp [Regmask.merge, hreg, h₁]
  · simp [Regmask.merge, hreg]

theorem Regmask.merge_eq_ok {t rm m : Regmask} (h : t.merge rm = .ok m) :
    m.reg = t.reg ∧ m.setMask = t.setMask ||| rm.setMask ∧
      m.clearMask = t.clearMask ||| rm.clearMask := by
  unfold Regmask.merge at h
  split at h
  · split at h
    · cases h
    · split at h
      · cases h
      · cases h
        exact ⟨rfl, rfl, rfl⟩
  · cases h

theorem Regmask.patch_eq_merge {t rm m : Regmask} (h : t.merge rm = .ok m) :
    m.patch = t.patch.merge rm.patch := by
  obtain ⟨-, hset, hclear⟩ := Regmask.merge_eq_ok h
  ext1
  · simp [hset]
  · simp [hclear]

/-- The union of one kind of mask over a list. -/
def unionMask (mask : Regmask → Nat) (ts : List RegmaskType) : Nat :=
  ts.foldr (fun t union => mask t.toRegmask ||| union) 0

def patches (ts : List RegmaskType) : List (Patch (Set Nat)) :=
  ts.map fun t => t.patch

/-- The union of a mask is that part of the merged patches. -/
theorem bits_unionMask {mask : Regmask → Nat} {part : Patch (Set Nat) → Set Nat}
    (hneutral : part neutral = ∅) (hmerge : ∀ p q, part (p.merge q) = part p ∪ part q)
    (hmask : ∀ t : Regmask, bits (mask t) = part t.patch) (ts : List RegmaskType) :
    bits (unionMask mask ts) = part (mergeAll (patches ts)) := by
  induction ts with
  | nil => simp [unionMask, patches, hneutral]
  | cons t ts ih =>
      simp only [unionMask, patches, List.foldr_cons, List.map_cons, bits_or,
        mergeAll_cons, hmerge] at ih ⊢
      rw [ih, hmask]

theorem bits_unionMask_setMask (ts : List RegmaskType) :
    bits (unionMask Regmask.setMask ts) = (mergeAll (patches ts)).set :=
  bits_unionMask rfl merge_set (fun _ => rfl) ts

theorem bits_unionMask_clearMask (ts : List RegmaskType) :
    bits (unionMask Regmask.clearMask ts) = (mergeAll (patches ts)).clear :=
  bits_unionMask rfl merge_clear (fun _ => rfl) ts

/-- No two elements conflict: what one sets, no other one clears without
setting it. -/
def ConflictFree (ts : List RegmaskType) : Prop :=
  ∀ a ∈ ts, ∀ b ∈ ts, ∀ i, ¬ (a.setMask.testBit i = true ∧
    b.clearMask.testBit i = true ∧ b.setMask.testBit i = false)

theorem conflictFree_iff_allCompatible (ts : List RegmaskType) :
    ConflictFree ts ↔ AllCompatible (patches ts) := by
  simp only [patches, AllCompatible, List.forall_mem_map]
  constructor
  · intro h a ha b hb
    constructor
    · rintro i ⟨hset, hclear⟩
      have hne := h a ha b hb i
      simp only [Regmask.patch_set, Regmask.patch_clear, mem_bits] at hset hclear ⊢
      simpa [hset, hclear] using hne
    · rintro i ⟨hset, hclear⟩
      have hne := h b hb a ha i
      simp only [Regmask.patch_set, Regmask.patch_clear, mem_bits] at hset hclear ⊢
      simpa [hset, hclear] using hne
  · rintro h a ha b hb i ⟨hset, hclear, hnot⟩
    have hmem : i ∈ b.patch.set := (h a ha b hb).1 ⟨hset, hclear⟩
    simp [hnot] at hmem

/-- What an accepted fold has checked and what it yields. -/
theorem mergedRegmask_eq_ok {t : RegmaskType} {ts : List RegmaskType} {m : RegmaskType}
    (h : mergedRegmask t ts = .ok m) :
    m.reg = t.reg ∧ (∀ u ∈ ts, u.reg = t.reg) ∧ AllCompatible (patches (t :: ts)) ∧
      m.patch = mergeAll (patches (t :: ts)) := by
  induction ts generalizing t m with
  | nil =>
      cases h
      simp [patches, allCompatible_cons_iff, allCompatible_nil]
  | cons u us ih =>
      simp only [mergedRegmask, bind_eq_ok_iff, pure_eq_ok_iff] at h
      obtain ⟨rest, hrest, merged, hmerged, rfl⟩ := h
      obtain ⟨hreg, hregs, hcompat, hpatch⟩ := ih hrest
      obtain ⟨hsame, hhead⟩ := (Regmask.merge_isOk_iff _ _).mp ⟨_, hmerged⟩
      have hu : u.reg = t.reg := hreg.symm.trans hsame
      refine ⟨(Regmask.merge_eq_ok hmerged).1, ?_, ?_, ?_⟩
      · simp only [List.mem_cons, forall_eq_or_imp]
        exact ⟨hu, fun w hw => (hregs w hw).trans hu⟩
      · refine (allCompatible_cons_iff_mergeAll _ _).mpr ⟨?_, hcompat⟩
        rw [hpatch] at hhead
        exact hhead
      · change merged.patch = t.patch.merge (mergeAll (patches (u :: us)))
        rw [Regmask.patch_eq_merge hmerged, hpatch]

theorem mergedRegmask_isOk {t : RegmaskType} {ts : List RegmaskType}
    (hreg : ∀ u ∈ ts, u.reg = t.reg) (hcompat : AllCompatible (patches (t :: ts))) :
    ∃ m, mergedRegmask t ts = .ok m := by
  induction ts generalizing t with
  | nil => exact ⟨t, rfl⟩
  | cons u us ih =>
      obtain ⟨hhead, hrest⟩ := (allCompatible_cons_iff_mergeAll _ _).mp hcompat
      have hu : u.reg = t.reg := hreg u List.mem_cons_self
      obtain ⟨rest, hok⟩ := ih
        (fun w hw => (hreg w (List.mem_cons_of_mem u hw)).trans hu.symm) hrest
      obtain ⟨hrestReg, -, -, hrestPatch⟩ := mergedRegmask_eq_ok hok
      obtain ⟨m, hm⟩ := (Regmask.merge_isOk_iff t.toRegmask rest.toRegmask).mpr
        ⟨hrestReg.trans hu, hrestPatch ▸ hhead⟩
      refine ⟨⟨m, .regmask 0⟩, ?_⟩
      simp only [mergedRegmask, bind_eq_ok_iff, pure_eq_ok_iff]
      exact ⟨rest, hok, m, hm, rfl⟩

/-- On one register the fold accepts exactly the conflict-free lists. -/
theorem mergedRegmask_isOk_iff {t : RegmaskType} {ts : List RegmaskType}
    (hreg : ∀ u ∈ ts, u.reg = t.reg) :
    (∃ m, mergedRegmask t ts = .ok m) ↔ ConflictFree (t :: ts) := by
  rw [conflictFree_iff_allCompatible]
  constructor
  · rintro ⟨m, hm⟩
    exact (mergedRegmask_eq_ok hm).2.2.1
  · exact mergedRegmask_isOk hreg

theorem masks_eq_union_of_patch {m : Regmask} {ts : List RegmaskType}
    (h : m.patch = mergeAll (patches ts)) :
    m.setMask = unionMask Regmask.setMask ts ∧
      m.clearMask = unionMask Regmask.clearMask ts := by
  constructor
  · apply bits_injective
    rw [bits_unionMask_setMask, ← h]
    rfl
  · apply bits_injective
    rw [bits_unionMask_clearMask, ← h]
    rfl

/-- Any way of writing nested `merged_regmask<>` over given leaves. -/
inductive MergeTree
  | leaf (t : RegmaskType)
  | merged (head : MergeTree) (rest : List MergeTree)

mutual

def MergeTree.leaves : MergeTree → List RegmaskType
  | .leaf t => [t]
  | .merged head rest => head.leaves ++ MergeTree.leavesAll rest

def MergeTree.leavesAll : List MergeTree → List RegmaskType
  | [] => []
  | tree :: trees => tree.leaves ++ MergeTree.leavesAll trees

end

mutual

/-- The type that the nested expression names. -/
def MergeTree.resolve : MergeTree → Except CompileError RegmaskType
  | .leaf t => .ok t
  | .merged head rest => do
      let t ← head.resolve
      let ts ← MergeTree.resolveAll rest
      mergedRegmask t ts

def MergeTree.resolveAll : List MergeTree → Except CompileError (List RegmaskType)
  | [] => .ok []
  | tree :: trees => do
      let t ← tree.resolve
      let ts ← MergeTree.resolveAll trees
      return t :: ts

end

theorem patches_append (ts us : List RegmaskType) :
    patches (ts ++ us) = patches ts ++ patches us :=
  List.map_append

/-- The types that a list of trees names can replace their leaves: the same
conflicts and the same merge. -/
def Replaces (ms leaves : List RegmaskType) : Prop :=
  (AllCompatible (patches ms) ↔ AllCompatible (patches leaves)) ∧
    mergeAll (patches ms) = mergeAll (patches leaves)

theorem Replaces.cons {m : RegmaskType} {ms us vs : List RegmaskType}
    (hus : AllCompatible (patches us)) (hm : m.patch = mergeAll (patches us))
    (h : Replaces ms vs) : Replaces (m :: ms) (us ++ vs) := by
  constructor
  · rw [patches_append, allCompatible_append_iff_mergeAll, ← h.1, ← h.2, ← hm]
    change AllCompatible (m.patch :: patches ms) ↔ _
    rw [allCompatible_cons_iff_mergeAll]
    tauto
  · rw [patches_append, mergeAll_append, ← h.2, ← hm]
    rfl

mutual

theorem MergeTree.resolve_spec (r : Reg) : (tree : MergeTree) →
    (∀ u ∈ tree.leaves, u.reg = r) →
    (∀ m, tree.resolve = .ok m → m.reg = r ∧ AllCompatible (patches tree.leaves) ∧
      m.patch = mergeAll (patches tree.leaves)) ∧
    (AllCompatible (patches tree.leaves) → ∃ m, tree.resolve = .ok m)
  | .leaf t, hreg => by
      refine ⟨?_, fun _ => ⟨t, by simp [MergeTree.resolve]⟩⟩
      intro m hm
      simp only [MergeTree.resolve, Except.ok.injEq] at hm
      subst hm
      exact ⟨hreg t (by simp [MergeTree.leaves]),
        by simp [MergeTree.leaves, patches, allCompatible_cons_iff, allCompatible_nil],
        by simp [MergeTree.leaves, patches]⟩
  | .merged head rest, hreg => by
      simp only [MergeTree.leaves, List.mem_append] at hreg
      obtain ⟨hhead, hheadOk⟩ := head.resolve_spec r fun u hu => hreg u (Or.inl hu)
      obtain ⟨hrest, hrestOk⟩ :=
        MergeTree.resolveAll_spec r rest fun u hu => hreg u (Or.inr hu)
      simp only [MergeTree.resolve, MergeTree.leaves, bind_eq_ok_iff]
      constructor
      · rintro m ⟨t, ht, ts, hts, hm⟩
        obtain ⟨htReg, htCompat, htPatch⟩ := hhead t ht
        obtain ⟨htsReg, hts⟩ := hrest ts hts
        obtain ⟨hmReg, -, hmCompat, hmPatch⟩ := mergedRegmask_eq_ok hm
        have hall := hts.cons htCompat htPatch
        exact ⟨hmReg.trans htReg, hall.1.mp hmCompat, hmPatch.trans hall.2⟩
      · intro hcompat
        have hsplit := hcompat
        rw [patches_append, allCompatible_append_iff_mergeAll] at hsplit
        obtain ⟨t, ht⟩ := hheadOk hsplit.1
        obtain ⟨ts, hts⟩ := hrestOk hsplit.2.1
        obtain ⟨htReg, htCompat, htPatch⟩ := hhead t ht
        obtain ⟨htsReg, hrep⟩ := hrest ts hts
        have hall := hrep.cons htCompat htPatch
        obtain ⟨m, hm⟩ := mergedRegmask_isOk
          (fun u hu => (htsReg u hu).trans htReg.symm) (hall.1.mpr hcompat)
        exact ⟨m, t, ht, ts, hts, hm⟩

theorem MergeTree.resolveAll_spec (r : Reg) : (trees : List MergeTree) →
    (∀ u ∈ MergeTree.leavesAll trees, u.reg = r) →
    (∀ ms, MergeTree.resolveAll trees = .ok ms → (∀ m ∈ ms, m.reg = r) ∧
      Replaces ms (MergeTree.leavesAll trees)) ∧
    (AllCompatible (patches (MergeTree.leavesAll trees)) →
      ∃ ms, MergeTree.resolveAll trees = .ok ms)
  | [], _ => by
      refine ⟨?_, fun _ => ⟨[], by simp [MergeTree.resolveAll]⟩⟩
      intro ms hms
      simp only [MergeTree.resolveAll, Except.ok.injEq] at hms
      subst hms
      exact ⟨by simp, Iff.rfl, rfl⟩
  | tree :: trees, hreg => by
      simp only [MergeTree.leavesAll, List.mem_append] at hreg
      obtain ⟨hhead, hheadOk⟩ := tree.resolve_spec r fun u hu => hreg u (Or.inl hu)
      obtain ⟨hrest, hrestOk⟩ :=
        MergeTree.resolveAll_spec r trees fun u hu => hreg u (Or.inr hu)
      simp only [MergeTree.resolveAll, MergeTree.leavesAll, bind_eq_ok_iff,
        pure_eq_ok_iff]
      constructor
      · rintro ms ⟨t, ht, ts, hts, rfl⟩
        obtain ⟨htReg, htCompat, htPatch⟩ := hhead t ht
        obtain ⟨htsReg, hrep⟩ := hrest ts hts
        refine ⟨?_, hrep.cons htCompat htPatch⟩
        simp only [List.mem_cons, forall_eq_or_imp]
        exact ⟨htReg, htsReg⟩
      · intro hcompat
        rw [patches_append, allCompatible_append_iff_mergeAll] at hcompat
        obtain ⟨t, ht⟩ := hheadOk hcompat.1
        obtain ⟨ts, hts⟩ := hrestOk hcompat.2.1
        exact ⟨t :: ts, t, ht, ts, hts, rfl⟩

end

/-- Acceptance is pairwise freedom from conflicts and the result is the union
of the masks; so every nested expression over the same types is accepted
together with the flat list and has the same masks. -/
theorem mergedRegmask_accepted_iff_conflictFree (t : RegmaskType)
    (ts : List RegmaskType) (hreg : ∀ u ∈ ts, u.reg = t.reg) :
    ((∃ m, mergedRegmask t ts = .ok m) ↔ ConflictFree (t :: ts)) ∧
    (∀ m, mergedRegmask t ts = .ok m →
      m.setMask = unionMask Regmask.setMask (t :: ts) ∧
        m.clearMask = unionMask Regmask.clearMask (t :: ts)) ∧
    (∀ tree : MergeTree, (∀ u, u ∈ tree.leaves ↔ u ∈ t :: ts) →
      ((∃ m, tree.resolve = .ok m) ↔ ∃ m, mergedRegmask t ts = .ok m) ∧
      ∀ m m', mergedRegmask t ts = .ok m → tree.resolve = .ok m' →
        m'.setMask = m.setMask ∧ m'.clearMask = m.clearMask) := by
  refine ⟨mergedRegmask_isOk_iff hreg, ?_, ?_⟩
  · intro m hm
    exact masks_eq_union_of_patch (mergedRegmask_eq_ok hm).2.2.2
  · intro tree hleaves
    have hsameReg : ∀ u ∈ tree.leaves, u.reg = t.reg := by
      intro u hu
      rcases List.mem_cons.mp ((hleaves u).mp hu) with rfl | hu
      · rfl
      · exact hreg u hu
    obtain ⟨htree, htreeOk⟩ := tree.resolve_spec t.reg hsameReg
    have hpatches : ∀ p, p ∈ patches tree.leaves ↔ p ∈ patches (t :: ts) := by
      intro p
      simp only [patches, List.mem_map, hleaves]
    constructor
    · constructor
      · rintro ⟨m', hm'⟩
        exact mergedRegmask_isOk hreg
          ((htree m' hm').2.1.of_subset fun p hp => (hpatches p).mpr hp)
      · rintro ⟨m, hm⟩
        exact htreeOk
          ((mergedRegmask_eq_ok hm).2.2.1.of_subset fun p hp => (hpatches p).mp hp)
    · intro m m' hm hm'
      have hpatch : m'.patch = m.patch := by
        rw [(htree m' hm').2.2, (mergedRegmask_eq_ok hm).2.2.2,
          mergeAll_eq_of_mem_iff hpatches]
      exact ⟨bits_injective (congrArg Patch.set hpatch),
        bits_injective (congrArg Patch.clear hpatch)⟩

namespace TypelistTest

/-- `struct A : reg< uint32_t, 0x1000, rw, 0 >` -/
def regA : Reg := ⟨.uint32, 0x1000, .rw, 0, ValueType.two_pow_width_pos _⟩

def testA0 : RegmaskType := ⟨⟨regA, 0x00000011, 0x000000ff, by decide, by decide⟩, .regmask 1⟩

def testA1 : RegmaskType := ⟨⟨regA, 0x00001100, 0x0000ff00, by decide, by decide⟩, .regmask 1⟩

/-- Clears a bit which is set by `testA0`. -/
def antiTestA0 : RegmaskType :=
  ⟨⟨regA, 0x00000000, 0x00000010, by decide, by decide⟩, .regmask 1⟩

theorem mergedRegmask_accepted_iff_conflictFree_testA :
    ConflictFree [testA0, testA1, testA0] ∧
      ∃ m, mergedRegmask testA0 [testA1, testA0] = .ok m ∧
        m.setMask = 0x00001111 ∧ m.clearMask = 0x0000ffff := by
  have hreg : ∀ u ∈ [testA1, testA0], u.reg = testA0.reg := by decide
  have hspec := mergedRegmask_accepted_iff_conflictFree testA0 [testA1, testA0] hreg
  refine ⟨hspec.1.mp ⟨_, rfl⟩, _, rfl, ?_⟩
  exact hspec.2.1 _ rfl

example : mergedRegmask antiTestA0 [testA0] = .error .settingCleared := by decide

end TypelistTest

end OpenMptl
