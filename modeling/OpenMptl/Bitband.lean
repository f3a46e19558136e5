/-
Bit-banding on the target.  The peripheral region has an alias region in which
every bit is a word of its own; the register functions use it for one-bit masks,
and this must not be observable in memory.
-/
import OpenMptl.ByteMemory
import OpenMptl.RegmaskRun

namespace OpenMptl

namespace BitbandPeriph

/-- `addr_bb`, computed in the 32 bits of `reg_addr_t`. -/
def bitAddr (addr bitNo : Nat) : Nat :=
  (aliasBase + (addr + 2 ^ 32 - regionStart) * 32 + bitNo * 4) % 2 ^ 32

/-! The hardware rule: the word at `aliasBase + 32 * k + 4 * b` stands for bit
`b` of the byte at `regionStart + k`. -/

def aliasEnd : Nat := aliasBase + 32 * (regionEnd - regionStart)

def aliased (addr : Nat) : Bool := addr ≥ aliasBase && addr < aliasEnd

theorem aliased_iff (addr : Nat) :
    aliased addr = true ↔ aliasBase ≤ addr ∧ addr < aliasEnd := by
  simp [aliased]

def aliasByte (addr : Nat) : Nat := regionStart + (addr - aliasBase) / 32

def aliasBit (addr : Nat) : Nat := (addr - aliasBase) / 4 % 8

def busLoad (m : Memory) (addr n : Nat) : Nat :=
  if aliased addr then (m.readBit (aliasByte addr) (aliasBit addr)).toNat
  else m.loadBytes addr n

/-- Only bit 0 of a word written to an alias address counts. -/
def busStore (m : Memory) (addr n v : Nat) : Memory :=
  if aliased addr then m.writeBit (aliasByte addr) (aliasBit addr) (v.testBit 0)
  else m.storeBytes addr n v

end BitbandPeriph

open BitbandPeriph

/-- `reg_access<>` on the target. -/
def memoryAccess : RegAccess Memory where
  load r m := (busLoad m r.addr (r.width / 8), m)
  store r v m := busStore m r.addr (r.width / 8) v
  bitset r bitNo m := busStore m (bitAddr r.addr bitNo) 4 1
  bitclear r bitNo m := busStore m (bitAddr r.addr bitNo) 4 0
  bittest r bitNo m := (decide (busLoad m (bitAddr r.addr bitNo) 4 ≠ 0), m)

/-- A size-aligned register of at most 32 bits in the bit-band region. -/
structure Reg.Bitbanded (r : Reg) : Prop where
  width_le : r.width ≤ 32
  aligned : r.addr % (r.width / 8) = 0
  covered : BitbandPeriph.covered r.addr = true

namespace Reg.Bitbanded

variable {r : Reg}

theorem width_cases (h : r.Bitbanded) : r.width = 8 ∨ r.width = 16 ∨ r.width = 32 := by
  have hle := h.width_le
  unfold Reg.width at hle ⊢
  cases hty : r.valueType <;> simp [hty, ValueType.width] at hle ⊢

/-- The whole register lies inside the region. -/
theorem range (h : r.Bitbanded) :
    0x40000000 ≤ r.addr ∧ r.addr + r.width / 8 ≤ 0x40100000 ∧
      8 * (r.width / 8) = r.width := by
  have hcovered := (covered_iff r.addr).mp h.covered
  have haligned := h.aligned
  simp only [regionStart, regionEnd] at hcovered
  rcases h.width_cases with hw | hw | hw <;> rw [hw] at haligned ⊢ <;> omega

theorem not_aliased (h : r.Bitbanded) : aliased r.addr = false := by
  obtain ⟨-, hend, -⟩ := h.range
  have hlt : ¬ 0x42000000 ≤ r.addr := by omega
  simp [aliased, aliasBase, hlt]

theorem bitAddr_eq (h : r.Bitbanded) {n : Nat} (hn : n < r.width) :
    bitAddr r.addr n = 0x42000000 + (r.addr - 0x40000000) * 32 + n * 4 := by
  obtain ⟨hstart, hend, hwidth⟩ := h.range
  have hle := h.width_le
  simp only [bitAddr, aliasBase, regionStart]
  omega

/-- Every alias address lies inside the alias region and names its own bit. -/
theorem alias_spec (h : r.Bitbanded) {n : Nat} (hn : n < r.width) :
    aliased (bitAddr r.addr n) = true ∧
      aliasByte (bitAddr r.addr n) = r.addr + n / 8 ∧
      aliasBit (bitAddr r.addr n) = n % 8 := by
  obtain ⟨hstart, hend, hwidth⟩ := h.range
  rw [h.bitAddr_eq hn, aliased_iff]
  simp only [aliasByte, aliasBit, aliasEnd, aliasBase, regionStart, regionEnd]
  omega

theorem load_eq (h : r.Bitbanded) (m : Memory) :
    memoryAccess.load r m = (m.loadBytes r.addr (r.width / 8), m) := by
  simp [memoryAccess, busLoad, h.not_aliased]

theorem store_eq (h : r.Bitbanded) (v : Nat) (m : Memory) :
    memoryAccess.store r v m = m.storeBytes r.addr (r.width / 8) v := by
  simp [memoryAccess, busStore, h.not_aliased]

theorem mem_bits_load (h : r.Bitbanded) (m : Memory) {i : Nat} (hi : i < r.width) :
    i ∈ bits (m.loadBytes r.addr (r.width / 8)) ↔ 8 * r.addr + i ∈ m.positions := by
  have hlt : i < 8 * (r.width / 8) := h.range.2.2.symm ▸ hi
  rw [m.mem_bits_loadBytes, and_iff_right hlt]

theorem mem_positions_store (h : r.Bitbanded) (v : Nat) (m : Memory) (p : Nat) :
    p ∈ (memoryAccess.store r v m).positions ↔
      if 8 * r.addr ≤ p ∧ p < 8 * r.addr + r.width then p - 8 * r.addr ∈ bits v
      else p ∈ m.positions := by
  have hend : 8 * (r.addr + r.width / 8) = 8 * r.addr + r.width := by
    have hwidth := h.range.2.2
    omega
  rw [h.store_eq, m.mem_positions_storeBytes, hend]

/-- A bit-band store changes one position of the memory. -/
theorem mem_positions_busStore (h : r.Bitbanded) {n : Nat} (hn : n < r.width) (v : Nat)
    (m : Memory) (p : Nat) :
    p ∈ (busStore m (bitAddr r.addr n) 4 v).positions ↔
      if p = 8 * r.addr + n then v.testBit 0 = true else p ∈ m.positions := by
  obtain ⟨haliased, hbyte, hbit⟩ := h.alias_spec hn
  have hpos : 8 * (r.addr + n / 8) + n % 8 = 8 * r.addr + n := by omega
  rw [busStore, if_pos haliased, hbyte, hbit,
    m.mem_positions_writeBit _ (Nat.mod_lt n (by omega)), hpos]

theorem bittest_eq (h : r.Bitbanded) {n : Nat} (hn : n < r.width) (m : Memory) :
    memoryAccess.bittest r n m =
      ((m.loadBytes r.addr (r.width / 8)).testBit n, m) := by
  obtain ⟨haliased, hbyte, hbit⟩ := h.alias_spec hn
  have hpos : 8 * (r.addr + n / 8) + n % 8 = 8 * r.addr + n := by omega
  have hread : m.readBit (r.addr + n / 8) (n % 8) =
      (m.loadBytes r.addr (r.width / 8)).testBit n := by
    rw [Bool.eq_iff_iff, m.readBit_eq_true_iff _ (Nat.mod_lt n (by omega)), hpos,
      ← h.mem_bits_load m hn, mem_bits]
  simp only [memoryAccess, busLoad, haliased, ↓reduceIte, hbyte, hbit, hread]
  cases (m.loadBytes r.addr (r.width / 8)).testBit n <;> rfl

/-- The masked read-modify-write on memory. -/
theorem mem_positions_setClear (h : r.Bitbanded) (setMask clearMask : Nat) (m : Memory)
    (p : Nat) :
    p ∈ (r.setClear memoryAccess setMask clearMask m).positions ↔
      if 8 * r.addr ≤ p ∧ p < 8 * r.addr + r.width then
        (p ∈ m.positions ∧ p - 8 * r.addr ∉ bits clearMask) ∨ p - 8 * r.addr ∈ bits setMask
      else p ∈ m.positions := by
  have hlt : m.loadBytes r.addr (r.width / 8) < 2 ^ r.width := by
    have hbytes := m.loadBytes_lt r.addr (r.width / 8)
    rwa [h.range.2.2] at hbytes
  simp only [Reg.setClear, h.load_eq, h.mem_positions_store, bits_or, bits_and_bitNot hlt]
  by_cases hp : 8 * r.addr ≤ p ∧ p < 8 * r.addr + r.width
  · have hindex : 8 * r.addr + (p - 8 * r.addr) = p := by omega
    have hload := h.mem_bits_load m (i := p - 8 * r.addr) (by omega)
    rw [hindex] at hload
    rw [if_pos hp, if_pos hp, Set.mem_union, Set.mem_sdiff, hload]
  · rw [if_neg hp, if_neg hp]

theorem clear_eq_setClear (clearMask : Nat) (m : Memory) :
    r.clear memoryAccess clearMask m = r.setClear memoryAccess 0 clearMask m := by
  simp [Reg.clear, Reg.setClear]

end Reg.Bitbanded

namespace Regmask

variable {t : Regmask} {n : Nat}

/-- Setting a bit through its alias is the masked read-modify-write. -/
theorem bitset_eq_setClear (h : t.reg.Bitbanded) (hn : t.clearMask = 2 ^ n)
    (hset : t.setMask = t.clearMask) (m : Memory) :
    memoryAccess.bitset t.reg n m =
      t.reg.setClear memoryAccess t.setMask t.croppedClearMask m := by
  have hlt := lt_width_of_clearMask hn
  apply Memory.ext_positions
  intro p
  change p ∈ (busStore m (bitAddr t.reg.addr n) 4 1).positions ↔ _
  rw [h.mem_positions_busStore hlt, h.mem_positions_setClear, t.bits_croppedClearMask]
  simp only [patch_clear, patch_set, hset, hn, bits_two_pow, sdiff_self, Set.bot_eq_empty,
    Set.mem_empty_iff_false, not_false_eq_true, and_true, Set.mem_singleton_iff]
  by_cases hp : p = 8 * t.reg.addr + n
  · have hrange : 8 * t.reg.addr ≤ p ∧ p < 8 * t.reg.addr + t.reg.width := by omega
    have hindex : p - 8 * t.reg.addr = n := by omega
    simp [hp, hlt]
  · by_cases hrange : 8 * t.reg.addr ≤ p ∧ p < 8 * t.reg.addr + t.reg.width
    · have hindex : p - 8 * t.reg.addr ≠ n := by omega
      simp only [hp, hrange, hindex, and_self, ↓reduceIte, or_false]
    · simp only [hp, hrange, ↓reduceIte]

theorem bitclear_eq_clear (h : t.reg.Bitbanded) (hn : t.clearMask = 2 ^ n) (m : Memory) :
    memoryAccess.bitclear t.reg n m = t.reg.clear memoryAccess t.clearMask m := by
  have hlt := lt_width_of_clearMask hn
  apply Memory.ext_positions
  intro p
  change p ∈ (busStore m (bitAddr t.reg.addr n) 4 0).positions ↔ _
  rw [h.mem_positions_busStore hlt, Reg.Bitbanded.clear_eq_setClear,
    h.mem_positions_setClear, hn]
  simp only [bits_two_pow, bits_zero, Set.mem_singleton_iff, Set.mem_empty_iff_false,
    or_false, Nat.zero_testBit, Bool.false_eq_true]
  by_cases hp : p = 8 * t.reg.addr + n
  · simp [hp, hlt]
  · by_cases hrange : 8 * t.reg.addr ≤ p ∧ p < 8 * t.reg.addr + t.reg.width
    · have hindex : p - 8 * t.reg.addr ≠ n := by omega
      simp only [hp, hrange, hindex, and_self, ↓reduceIte, not_false_eq_true, and_true]
    · simp only [hp, hrange, ↓reduceIte]

theorem set_memory_eq (h : t.reg.Bitbanded) (cfg : BitbandConfig) (m : Memory) :
    t.set memoryAccess cfg m = t.set memoryAccess .disabled m := by
  by_cases hbit : (!cfg.disableWrite && (t.bitopEnabled && t.setMask == t.clearMask)) = true
  · have hpath := hbit
    simp only [Bool.and_eq_true, beq_iff_eq] at hpath
    obtain ⟨n, hn, hindex⟩ := exists_bit_of_bitopEnabled hpath.2.1
    have hne : t.clearMask ≠ 0 := hn ▸ (Nat.two_pow_pos n).ne'
    have hdisabled : t.set memoryAccess .disabled m =
        t.reg.setClear memoryAccess t.setMask t.croppedClearMask m := by
      simp [set, BitbandConfig.disabled, hne]
    have hauto : t.set memoryAccess cfg m = memoryAccess.bitset t.reg n m := by
      simp only [set, hbit, ↓reduceIte, hindex]
    rw [hauto, hdisabled, bitset_eq_setClear h hn hpath.2.2]
  · simp [set, hbit, BitbandConfig.disabled]

theorem clear_memory_eq (h : t.reg.Bitbanded) (cfg : BitbandConfig) (m : Memory) :
    t.clear memoryAccess cfg m = t.clear memoryAccess .disabled m := by
  by_cases hbit : (!cfg.disableWrite && t.bitopEnabled) = true
  · have hpath := hbit
    simp only [Bool.and_eq_true] at hpath
    obtain ⟨n, hn, hindex⟩ := exists_bit_of_bitopEnabled hpath.2
    have hne : t.clearMask ≠ 0 := hn ▸ (Nat.two_pow_pos n).ne'
    have hdisabled : t.clear memoryAccess .disabled m =
        t.reg.clear memoryAccess t.clearMask m := by
      simp [clear, BitbandConfig.disabled, hne]
    have hauto : t.clear memoryAccess cfg m = memoryAccess.bitclear t.reg n m := by
      simp only [clear, hbit, ↓reduceIte, hindex]
    rw [hauto, hdisabled, bitclear_eq_clear h hn]
  · simp [clear, hbit, BitbandConfig.disabled]

/-- `test()` without bit-banding, in terms of the loaded word. -/
theorem test_disabled_eq (h : t.reg.Bitbanded) (hzero : t.clearMask ≠ 0) (m : Memory) :
    t.test memoryAccess .disabled m =
      (if t.clearMask = t.setMask then
          decide (m.loadBytes t.reg.addr (t.reg.width / 8) &&& t.clearMask ≠ 0)
        else decide (m.loadBytes t.reg.addr (t.reg.width / 8) &&& t.clearMask = t.setMask),
        m) := by
  by_cases heq : t.clearMask = t.setMask
  · simp [test, BitbandConfig.disabled, h.load_eq, heq, heq ▸ hzero]
  · simp [test, BitbandConfig.disabled, h.load_eq, heq, hzero]

theorem test_memory_eq (h : t.reg.Bitbanded) (cfg : BitbandConfig) (m : Memory) :
    t.test memoryAccess cfg m = t.test memoryAccess .disabled m := by
  by_cases hzero : t.clearMask = 0
  · simp [test, hzero]
  · by_cases hbit : (!cfg.disableRead && t.bitopEnabled) = true
    · have hpath := hbit
      simp only [Bool.and_eq_true] at hpath
      obtain ⟨n, hn, hindex⟩ := exists_bit_of_bitopEnabled hpath.2
      have hread := h.bittest_eq (lt_width_of_clearMask hn) m
      have hand := and_two_pow_ne_zero_iff (m.loadBytes t.reg.addr (t.reg.width / 8)) n
      rw [test_disabled_eq h hzero]
      by_cases hset : t.setMask = 0
      · -- the bit is inverted when the mask asks for a zero
        have hauto : t.test memoryAccess cfg m =
            (!(memoryAccess.bittest t.reg n m).1, (memoryAccess.bittest t.reg n m).2) := by
          rw [← hindex]
          simp [test, hzero, hpath.1, hpath.2, hset]
        have hne : ¬ t.clearMask = t.setMask := fun heq => hzero (heq.trans hset)
        rw [hauto, hread, if_neg hne, hset, hn]
        cases hb : (m.loadBytes t.reg.addr (t.reg.width / 8)).testBit n
        · simp [hb] at hand
          simp [hand]
        · simp [hb] at hand
          simp [hand]
      · have hauto : t.test memoryAccess cfg m = memoryAccess.bittest t.reg n m := by
          rw [← hindex]
          simp [test, hzero, hpath.1, hpath.2, hset]
        have heq := setMask_eq_of_ne_zero hn hset
        rw [hauto, hread, if_pos heq.symm, hn]
        exact congrArg (·, m) (Bool.eq_iff_iff.mpr (hand.symm.trans (by simp)))
    · have hnot : ∀ b, (!cfg.disableRead && (t.bitopEnabled && b)) = false := by
        intro b
        rw [← Bool.and_assoc, Bool.eq_false_of_not_eq_true hbit, Bool.false_and]
      simp [test, hnot, BitbandConfig.disabled]

end Regmask

/-- Automatic bit-banding changes neither memory nor results.  The fast path is
taken on one-bit masks with their bit index, and an alias address stands for one
bit of its own register. -/
theorem regmask_bitband_eq_disabled {t : Regmask} (h : t.reg.Bitbanded) :
    (∀ m : Memory,
      t.set memoryAccess .automatic m = t.set memoryAccess .disabled m ∧
        t.clear memoryAccess .automatic m = t.clear memoryAccess .disabled m ∧
        t.test memoryAccess .automatic m = t.test memoryAccess .disabled m) ∧
    (∀ x, (bitcount x).value = 1 ↔ ∃ n, x = 2 ^ n) ∧
    (∀ n, (bitcount (2 ^ n)).significantBits - 1 = n) ∧
    (∀ n, n < t.reg.width →
      (aliasBase ≤ bitAddr t.reg.addr n ∧ bitAddr t.reg.addr n + 4 ≤ aliasEnd) ∧
        aliasByte (bitAddr t.reg.addr n) = t.reg.addr + n / 8 ∧
        aliasBit (bitAddr t.reg.addr n) = n % 8 ∧
        ∀ q : Reg, q.Bitbanded →
          (q.addr + q.width / 8 ≤ t.reg.addr ∨ t.reg.addr + t.reg.width / 8 ≤ q.addr) →
          ∀ k, k < q.width → bitAddr q.addr k ≠ bitAddr t.reg.addr n) := by
  refine ⟨fun m => ⟨Regmask.set_memory_eq h _ m, Regmask.clear_memory_eq h _ m,
    Regmask.test_memory_eq h _ m⟩, bitcount_value_eq_one_iff, ?_, ?_⟩
  · intro n
    rw [bitcount_two_pow]
    rfl
  · intro n hn
    obtain ⟨hstart, hend, hwidth⟩ := h.range
    obtain ⟨-, hbyte, hbit⟩ := h.alias_spec hn
    have haddr := h.bitAddr_eq hn
    refine ⟨?_, hbyte, hbit, ?_⟩
    · rw [haddr]
      simp only [aliasBase, aliasEnd, regionStart, regionEnd]
      omega
    · intro q hq hdisjoint k hk
      obtain ⟨hqstart, hqend, hqwidth⟩ := hq.range
      rw [haddr, hq.bitAddr_eq hk]
      omega

namespace BitbandTest

/-- A bit of a control register in the bit-band region. -/
def control : Regmask :=
  ⟨⟨.uint16, 0x4001380c, .rw, 0, ValueType.two_pow_width_pos _⟩, 0x0080, 0x0080,
    by decide, by decide⟩

theorem regmask_bitband_eq_disabled_control :
    (∀ m : Memory,
      control.set memoryAccess .automatic m = control.set memoryAccess .disabled m) ∧
    bitAddr control.reg.addr 7 = 0x4227019c ∧
      aliasByte (bitAddr control.reg.addr 7) = control.reg.addr := by
  have hspec := @regmask_bitband_eq_disabled control ⟨by decide, by decide, by decide⟩
  exact ⟨fun m => (hspec.1 m).1, by decide, (hspec.2.2.2 7 (by decide)).2.1⟩

end BitbandTest

end OpenMptl
