/-
Registers with status bits.  The hardware decides what these bits show at each load;
everything else is what was stored last.  A program on such registers leaves a trace of
the bus, and it hangs where the readings never show the flag that it polls.
-/
import OpenMptl.StrictReset
import OpenMptl.Waiting

namespace OpenMptl

/-- An access on the bus, with the value that was transferred. -/
inductive BusEvent
  | read (r : Reg) (value : Nat)
  | write (r : Reg) (value : Nat)

/-- `readings` is what the hardware is going to show; it ends where the run is cut off. -/
structure StatusBus where
  file : RegFile
  readings : List Nat
  events : List BusEvent

namespace StatusBus

variable (status : Reg → Nat) (r : Reg) (s : StatusBus)

/-- What a load yields. -/
def shown : Nat :=
  (s.file.value r &&& bitNot r.width (status r)) ||| (s.readings.headD 0 &&& status r)

def didRead : StatusBus :=
  { s with
    readings := s.readings.tail
    events := s.events ++ [.read r (s.shown status r)] }

def didWrite (v : Nat) : StatusBus :=
  { s with
    file := s.file.store r v
    events := s.events ++ [.write r (v % 2 ^ r.width)] }

/-- Stores to some registers, one after the other. -/
def storeEach (regs : List Reg) (value : Reg → Nat) (s : StatusBus) : StatusBus :=
  regs.foldl (fun s r => s.didWrite r (value r)) s

end StatusBus

/-! After a reset. -/

def RegFile.atReset : RegFile := ⟨Reg.resetValue, Reg.resetValue_lt⟩

def StatusBus.atReset (readings : List Nat) : StatusBus := ⟨.atReset, readings, []⟩

/-- Loads and stores; `status r` is the mask of the status bits of a register. -/
def statusAccess (status : Reg → Nat) : RegAccess StatusBus where
  load r s := (s.shown status r, s.didRead status r)
  store r v s := s.didWrite r v
  bitset r n s := s.didWrite r (s.file.value r ||| 2 ^ n)
  bitclear r n s := s.didWrite r (s.file.value r &&& bitNot r.width (2 ^ n))
  bittest r n s := ((s.shown status r).testBit n, s.didRead status r)

section Poll

variable (status : Reg → Nat) (cfg : BitbandConfig) (t : Regmask)

/-- `while(t::test() == false);` for a number of turns. -/
def pollLoop : Nat → StatusBus → Option PUnit × StatusBus
  | 0, s => (none, s)
  | turns + 1, s =>
      let (ready, s) := t.test (statusAccess status) cfg s
      if ready = false then pollLoop turns s else (some ⟨⟩, s)

/-- The loop ends with the first reading that shows the flag, and hangs without one. -/
def poll : Waiting StatusBus PUnit := fun s => pollLoop status cfg t s.readings.length s

/-- `t::set()` -/
def setMask : Waiting StatusBus PUnit := .modify (t.set (statusAccess status) cfg)

/-- `t::clear()` -/
def clearMask : Waiting StatusBus PUnit := .modify (t.clear (statusAccess status) cfg)

end Poll

/-- A content that `t::set()` may store: the masks decide their bits, and the status bits
are what was loaded. -/
structure Written (status : Reg → Nat) (t : Regmask) (s : StatusBus) (v : Nat) : Prop where
  lt : v < 2 ^ t.reg.width
  inside : ∀ i, t.clearMask.testBit i = true → v.testBit i = t.setMask.testBit i
  outside : ∀ i, t.clearMask.testBit i = false → (status t.reg).testBit i = false →
    v.testBit i = (s.file.value t.reg).testBit i

/-- The mask that `t::clear()` applies. -/
def Regmask.cleared (t : Regmask) : Regmask where
  reg := t.reg
  setMask := 0
  clearMask := t.clearMask
  covers := Nat.zero_or _
  clearMask_lt := t.clearMask_lt

section Rules

variable {status : Reg → Nat} {cfg : BitbandConfig} {t : Regmask} {s : StatusBus}

theorem test_statusAccess (hne : t.clearMask ≠ 0) (s : StatusBus) :
    t.test (statusAccess status) cfg s =
      (t.holds (s.shown status t.reg), s.didRead status t.reg) := by
  have hvalue : (t.test (statusAccess status) cfg s).1 = t.holds (s.shown status t.reg) :=
    Regmask.test_eq_holds cfg rfl fun _ _ => rfl
  have hstate : (t.test (statusAccess status) cfg s).2 = s.didRead status t.reg := by
    unfold Regmask.test
    rw [if_neg hne]
    split
    · rfl
    · split
      · rfl
      · dsimp only [statusAccess]
        split <;> rfl
  exact Prod.ext hvalue hstate

theorem StatusBus.testBit_shown (r : Reg) (s : StatusBus) {i : Nat}
    (hi : (status r).testBit i = false) :
    (s.shown status r).testBit i = (s.file.value r).testBit i := by
  have hlt : s.file.value r < 2 ^ r.width := s.file.value_lt r
  have hkept : i ∈ bits (s.file.value r &&& bitNot r.width (status r)) ↔
      i ∈ bits (s.file.value r) := by
    rw [bits_and_bitNot hlt, Set.mem_sdiff, mem_bits (status r), hi]
    simp
  rw [mem_bits, mem_bits] at hkept
  rw [shown, Nat.testBit_or, Nat.testBit_and (s.readings.headD 0), hi, Bool.and_false,
    Bool.or_false]
  exact Bool.eq_iff_iff.mpr hkept

/-- A status bit shows what the hardware decides. -/
theorem StatusBus.testBit_shown_of_status (r : Reg) (s : StatusBus) {i : Nat}
    (hi : (status r).testBit i = true) :
    (s.shown status r).testBit i = (s.readings.headD 0).testBit i := by
  have hlt : s.file.value r < 2 ^ r.width := s.file.value_lt r
  have hout : i ∉ bits (s.file.value r &&& bitNot r.width (status r)) := by
    rw [bits_and_bitNot hlt, Set.mem_sdiff, mem_bits (status r)]
    exact fun h => h.2 hi
  rw [mem_bits, Bool.not_eq_true] at hout
  rw [shown, Nat.testBit_or, hout, Bool.false_or, Nat.testBit_and, hi, Bool.and_true]

theorem RegFile.store_mod (f : RegFile) (r : Reg) (v : Nat) :
    f.store r (v % 2 ^ r.width) = f.store r v := by
  simp only [RegFile.store, Nat.mod_mod]

theorem StatusBus.didWrite_mod (r : Reg) (v : Nat) (s : StatusBus) :
    s.didWrite r (v % 2 ^ r.width) = s.didWrite r v := by
  rw [didWrite, didWrite, s.file.store_mod, Nat.mod_mod]

theorem testBit_bitNot {w i : Nat} (hi : i < w) (m : Nat) :
    (bitNot w m).testBit i = !m.testBit i := by
  rw [bitNot, Nat.testBit_xor, Nat.testBit_two_pow_sub_one, decide_eq_true hi, Bool.true_xor]

theorem Regmask.testBit_croppedClearMask (t : Regmask) (i : Nat) :
    t.croppedClearMask.testBit i = (t.clearMask.testBit i && !t.setMask.testBit i) := by
  have hmem := Set.ext_iff.mp t.bits_croppedClearMask i
  rw [Set.mem_sdiff, mem_bits, Regmask.patch_clear, Regmask.patch_set, mem_bits, mem_bits] at hmem
  rw [Bool.eq_iff_iff, hmem]
  simp

theorem Regmask.testBit_setMask_of_clear (t : Regmask) {i : Nat}
    (hi : t.clearMask.testBit i = false) : t.setMask.testBit i = false := by
  have hcovers : (t.setMask ||| t.clearMask).testBit i = t.clearMask.testBit i := by
    rw [t.covers]
  rwa [Nat.testBit_or, hi, Bool.or_false] at hcovers

/-- The read-modify-write of a masked set, from what was loaded. -/
theorem written_setClear {w : Nat} (hw : ∀ i, i < t.reg.width →
      (status t.reg).testBit i = false → w.testBit i = (s.file.value t.reg).testBit i) :
    Written status t s
      (((w &&& bitNot t.reg.width t.croppedClearMask) ||| t.setMask) % 2 ^ t.reg.width) := by
  have hbit : ∀ i, i < t.reg.width →
      (((w &&& bitNot t.reg.width t.croppedClearMask) ||| t.setMask) % 2 ^ t.reg.width).testBit i =
        ((w.testBit i && !(t.clearMask.testBit i && !t.setMask.testBit i)) ||
          t.setMask.testBit i) := by
    intro i hi
    rw [Nat.testBit_mod_two_pow, decide_eq_true hi, Bool.true_and, Nat.testBit_or,
      Nat.testBit_and w, testBit_bitNot hi, t.testBit_croppedClearMask]
  refine ⟨Nat.mod_lt _ (Nat.two_pow_pos _), fun i hi => ?_, fun i hi hstatus => ?_⟩
  · have hlt : i < t.reg.width := lt_of_mem_bits t.clearMask_lt hi
    rw [hbit i hlt, hi]
    cases t.setMask.testBit i <;> simp
  · have hset := t.testBit_setMask_of_clear hi
    rcases Nat.lt_or_ge i t.reg.width with hlt | hge
    · rw [hbit i hlt, hi, hset, hw i hlt hstatus]
      simp
    · have hfile : (s.file.value t.reg).testBit i = false :=
        Nat.testBit_lt_two_pow ((s.file.value_lt t.reg).trans_le
          (Nat.pow_le_pow_right Nat.two_pos hge))
      rw [Nat.testBit_mod_two_pow, decide_eq_false (Nat.not_lt.mpr hge), Bool.false_and, hfile]

/-- `set()` is one store, perhaps after a load. -/
theorem set_statusAccess (hne : t.clearMask ≠ 0) (s : StatusBus) :
    ∃ v, Written status t s v ∧
      (t.set (statusAccess status) cfg s = s.didWrite t.reg v ∨
        t.set (statusAccess status) cfg s = (s.didRead status t.reg).didWrite t.reg v) := by
  by_cases hbit : (!cfg.disableWrite && (t.bitopEnabled && t.setMask == t.clearMask)) = true
  · have hset : t.set (statusAccess status) cfg s = s.didWrite t.reg
        (s.file.value t.reg ||| 2 ^ ((bitcount t.clearMask).significantBits - 1)) := by
      simp only [Regmask.set, hbit, ↓reduceIte]
      rfl
    simp only [Bool.and_eq_true, beq_iff_eq] at hbit
    obtain ⟨n, hn, hindex⟩ := Regmask.exists_bit_of_bitopEnabled hbit.2.1
    have hcropped : t.croppedClearMask = 0 := by
      apply Nat.eq_of_testBit_eq
      intro i
      rw [t.testBit_croppedClearMask, hbit.2.2, Bool.and_not_self, Nat.zero_testBit]
    refine ⟨_, written_setClear fun i _ _ => rfl, .inl ?_⟩
    have hkept : s.file.value t.reg &&& bitNot t.reg.width 0 = s.file.value t.reg := by
      have hlt : s.file.value t.reg < 2 ^ t.reg.width := s.file.value_lt t.reg
      apply bits_injective
      rw [bits_and_bitNot hlt, bits_zero, Set.sdiff_empty]
    rw [hset, hindex, ← hn, StatusBus.didWrite_mod, hcropped, hkept, hbit.2.2]
  · have hset : t.set (statusAccess status) cfg s =
        (s.didRead status t.reg).didWrite t.reg
          ((s.shown status t.reg &&& bitNot t.reg.width t.croppedClearMask) ||| t.setMask) := by
      simp [Regmask.set, hbit, hne]
      rfl
    refine ⟨_, written_setClear fun i _ hstatus => s.testBit_shown t.reg hstatus, .inr ?_⟩
    rw [hset, StatusBus.didWrite_mod]

/-- `clear()` is one store, perhaps after a load. -/
theorem clear_statusAccess (hne : t.clearMask ≠ 0) (s : StatusBus) :
    ∃ v, Written status t.cleared s v ∧
      (t.clear (statusAccess status) cfg s = s.didWrite t.reg v ∨
        t.clear (statusAccess status) cfg s = (s.didRead status t.reg).didWrite t.reg v) := by
  have hcropped : t.cleared.croppedClearMask = t.clearMask := by
    apply Nat.eq_of_testBit_eq
    intro i
    rw [t.cleared.testBit_croppedClearMask]
    change (t.clearMask.testBit i && !(0 : Nat).testBit i) = _
    rw [Nat.zero_testBit, Bool.not_false, Bool.and_true]
  have hwritten : ∀ w, (∀ i, i < t.reg.width → (status t.reg).testBit i = false →
      w.testBit i = (s.file.value t.reg).testBit i) →
      Written status t.cleared s ((w &&& bitNot t.reg.width t.clearMask) % 2 ^ t.reg.width) := by
    intro w hw
    have hv := written_setClear (t := t.cleared) hw
    rw [hcropped] at hv
    change Written status t.cleared s
      (((w &&& bitNot t.reg.width t.clearMask) ||| 0) % 2 ^ t.reg.width) at hv
    rwa [Nat.or_zero] at hv
  by_cases hbit : (!cfg.disableWrite && t.bitopEnabled) = true
  · have hclear : t.clear (statusAccess status) cfg s = s.didWrite t.reg
        (s.file.value t.reg &&&
          bitNot t.reg.width (2 ^ ((bitcount t.clearMask).significantBits - 1))) := by
      simp only [Regmask.clear, hbit, ↓reduceIte]
      rfl
    simp only [Bool.and_eq_true] at hbit
    obtain ⟨n, hn, hindex⟩ := Regmask.exists_bit_of_bitopEnabled hbit.2
    refine ⟨_, hwritten _ fun i _ _ => rfl, .inl ?_⟩
    rw [hclear, hindex, ← hn, StatusBus.didWrite_mod]
  · have hclear : t.clear (statusAccess status) cfg s =
        (s.didRead status t.reg).didWrite t.reg
          (s.shown status t.reg &&& bitNot t.reg.width t.clearMask) := by
      simp [Regmask.clear, hbit, hne]
      rfl
    refine ⟨_, hwritten _ fun i _ hstatus => s.testBit_shown t.reg hstatus, .inr ?_⟩
    rw [hclear, StatusBus.didWrite_mod]

theorem written_didRead {v : Nat} {r : Reg} :
    Written status t (s.didRead status r) v ↔ Written status t s v :=
  ⟨fun h => ⟨h.lt, h.inside, h.outside⟩, fun h => ⟨h.lt, h.inside, h.outside⟩⟩

/-- A mask of one bit leaves the other bits alone. -/
theorem Written.single {v i : Nat} (h : Written status t s v) (hclear : t.clearMask = 2 ^ i) :
    v.testBit i = t.setMask.testBit i ∧ ∀ j, j ≠ i → (status t.reg).testBit j = false →
      v.testBit j = (s.file.value t.reg).testBit j := by
  constructor
  · exact h.inside i (by rw [hclear, Nat.testBit_two_pow_self])
  · intro j hj hstatus
    exact h.outside j (by rw [hclear, Nat.testBit_two_pow_of_ne hj.symm]) hstatus

/-- The rule of `set()`: what holds must survive a load. -/
theorem setMask_triple {pre post waits : StatusBus → Prop} (hne : t.clearMask ≠ 0)
    (hread : ∀ s, pre s → pre (s.didRead status t.reg))
    (hwrite : ∀ s v, pre s → Written status t s v → post (s.didWrite t.reg v)) :
    Waiting.Triple pre (setMask status cfg t) (fun _ => post) waits := by
  refine Waiting.Triple.modify fun s hs => ?_
  obtain ⟨v, hv, hset⟩ := @set_statusAccess status cfg t hne s
  rcases hset with hset | hset
  · rw [hset]
    exact hwrite s v hs hv
  · rw [hset]
    exact hwrite _ v (hread s hs) (written_didRead.mpr hv)

/-- The rule of `clear()`. -/
theorem clearMask_triple {pre post waits : StatusBus → Prop} (hne : t.clearMask ≠ 0)
    (hread : ∀ s, pre s → pre (s.didRead status t.reg))
    (hwrite : ∀ s v, pre s → Written status t.cleared s v → post (s.didWrite t.reg v)) :
    Waiting.Triple pre (clearMask status cfg t) (fun _ => post) waits := by
  refine Waiting.Triple.modify fun s hs => ?_
  obtain ⟨v, hv, hclear⟩ := @clear_statusAccess status cfg t hne s
  rcases hclear with hclear | hclear
  · rw [hclear]
    exact hwrite s v hs hv
  · rw [hclear]
    exact hwrite _ v (hread s hs) (written_didRead (t := t.cleared).mpr hv)

/-- The last reading has shown the flag. -/
theorem pollLoop_triple {inv : StatusBus → Prop} (hne : t.clearMask ≠ 0)
    (hread : ∀ s, inv s → inv (s.didRead status t.reg)) (turns : Nat) :
    Waiting.Triple inv (pollLoop status cfg t turns)
      (fun _ s' => ∃ s₀, inv s₀ ∧ t.holds (s₀.shown status t.reg) = true ∧
        s' = s₀.didRead status t.reg) inv := by
  induction turns with
  | zero => exact fun s hs => hs
  | succ turns ih =>
      intro s hs
      rw [pollLoop, test_statusAccess hne]
      cases hready : t.holds (s.shown status t.reg) with
      | false => exact ih _ (hread s hs)
      | true => exact ⟨s, hs, hready, rfl⟩

theorem poll_triple {inv : StatusBus → Prop} (hne : t.clearMask ≠ 0)
    (hread : ∀ s, inv s → inv (s.didRead status t.reg)) :
    Waiting.Triple inv (poll status cfg t)
      (fun _ s' => ∃ s₀, inv s₀ ∧ t.holds (s₀.shown status t.reg) = true ∧
        s' = s₀.didRead status t.reg) inv :=
  fun s hs => pollLoop_triple hne hread s.readings.length s hs

/-! Computations that return when the hardware shows the flags. -/

/-- Some of the readings are of the kinds that are asked for, one after the other. -/
def ShownInTurn : List (Nat → Prop) → List Nat → Prop
  | [], _ => True
  | kind :: kinds, readings =>
      ∃ before v rest, readings = before ++ v :: rest ∧ kind v ∧ ShownInTurn kinds rest

namespace ShownInTurn

variable {kinds : List (Nat → Prop)} {kind : Nat → Prop} {readings : List Nat}

/-- Other readings before do not matter. -/
theorem append (h : ShownInTurn kinds readings) (before : List Nat) :
    ShownInTurn kinds (before ++ readings) := by
  cases kinds with
  | nil => trivial
  | cons kind kinds =>
      obtain ⟨before', v, rest, rfl, hv, hrest⟩ := h
      exact ⟨before ++ before', v, rest, (List.append_assoc _ _ _).symm, hv, hrest⟩

theorem weaken (h : ShownInTurn (kind :: kinds) readings) : ShownInTurn kinds readings := by
  obtain ⟨before, v, rest, rfl, -, hrest⟩ := h
  rw [← List.singleton_append, ← List.append_assoc]
  exact hrest.append _

/-- The first reading shows the first flag, or all are shown after it. -/
theorem cons {v : Nat} (h : ShownInTurn (kind :: kinds) (v :: readings)) :
    (kind v ∨ ShownInTurn (kind :: kinds) readings) ∧ ShownInTurn kinds readings := by
  obtain ⟨before, x, rest, hsplit, hx, hrest⟩ := h
  cases before with
  | nil =>
      obtain ⟨rfl, rfl⟩ := List.cons.inj hsplit
      exact ⟨.inl hx, hrest⟩
  | cons y before =>
      obtain ⟨-, rfl⟩ := List.cons.inj hsplit
      have hlater : ShownInTurn (kind :: kinds) (before ++ x :: rest) :=
        ⟨before, x, rest, rfl, hx, hrest⟩
      exact ⟨.inr hlater, hlater.weaken⟩

theorem ne_nil (h : ShownInTurn (kind :: kinds) readings) : readings ≠ [] := by
  obtain ⟨before, v, rest, rfl, -, -⟩ := h
  exact List.append_ne_nil_of_right_ne_nil before (List.cons_ne_nil v rest)

theorem tail (h : ShownInTurn (kind :: kinds) readings) : ShownInTurn kinds readings.tail := by
  obtain ⟨v, rest, rfl⟩ := List.exists_cons_of_ne_nil h.ne_nil
  exact h.cons.2

/-- Enough readings of one kind, whatever the others are. -/
theorem replicate {shows : Nat → Bool} {n : Nat} (h : n ≤ readings.countP shows) :
    ShownInTurn (List.replicate n fun v => shows v = true) readings := by
  induction readings generalizing n with
  | nil =>
      rw [Nat.le_zero.mp h]
      trivial
  | cons v readings ih =>
      cases n with
      | zero => trivial
      | succ n =>
          by_cases hv : shows v = true
          · rw [List.countP_cons_of_pos hv] at h
            exact ⟨[], v, readings, rfl, hv, ih (Nat.le_of_succ_le_succ h)⟩
          · rw [List.countP_cons_of_neg hv] at h
            exact (ih h).append [v]

end ShownInTurn

/-- The readings to come are of the kinds that are asked for. -/
def Prompt (kinds : List (Nat → Prop)) (s : StatusBus) : Prop := ShownInTurn kinds s.readings

namespace Prompt

variable {kinds : List (Nat → Prop)} {kind : Nat → Prop}

theorem weaken (h : Prompt (kind :: kinds) s) : Prompt kinds s := ShownInTurn.weaken h

theorem le {m n : Nat} (h : Prompt (List.replicate n kind) s) (hle : m ≤ n) :
    Prompt (List.replicate m kind) s := by
  induction hle with
  | refl => exact h
  | step _ ih => exact ih h.weaken

theorem didRead (h : Prompt (kind :: kinds) s) (r : Reg) :
    Prompt kinds (s.didRead status r) := ShownInTurn.tail h

theorem didWrite (h : Prompt kinds s) (r : Reg) (v : Nat) : Prompt kinds (s.didWrite r v) := h

theorem storeEach (h : Prompt kinds s) (regs : List Reg) (value : Reg → Nat) :
    Prompt kinds (s.storeEach regs value) := by
  induction regs generalizing s with
  | nil => exact h
  | cons r regs ih => exact ih (h.didWrite r (value r))

theorem poll_triple (hne : t.clearMask ≠ 0)
    (hshows : ∀ s : StatusBus, kind (s.readings.headD 0) →
      t.holds (s.shown status t.reg) = true) :
    Waiting.Triple (Prompt (kind :: kinds)) (poll status cfg t) (fun _ => Prompt kinds)
      fun _ => False := by
  intro s h
  rw [poll]
  generalize hreadings : s.readings = readings
  induction readings generalizing s with
  | nil => exact absurd hreadings (ShownInTurn.ne_nil h)
  | cons v readings ih =>
      rw [List.length_cons, pollLoop, test_statusAccess hne]
      cases hready : t.holds (s.shown status t.reg) with
      | true => exact h.didRead t.reg
      | false =>
          have htail : (s.didRead status t.reg).readings = readings := by
            rw [StatusBus.didRead, hreadings]
            rfl
          have hturn := h
          rw [Prompt, hreadings] at hturn
          refine ih _ ?_ htail
          rw [Prompt, htail]
          refine hturn.cons.1.resolve_left fun hv => ?_
          rw [hshows s (by rw [hreadings]; exact hv)] at hready
          cases hready

theorem setMask_triple (hne : t.clearMask ≠ 0) :
    Waiting.Triple (Prompt (kind :: kinds)) (setMask status cfg t) (fun _ => Prompt kinds)
      fun _ => False := by
  refine Waiting.Triple.modify fun s h => ?_
  obtain ⟨v, -, hset⟩ := @set_statusAccess status cfg t hne s
  rcases hset with hset | hset
  · rw [hset]
    exact h.weaken.didWrite t.reg v
  · rw [hset]
    exact (h.didRead t.reg).didWrite t.reg v

theorem clearMask_triple (hne : t.clearMask ≠ 0) :
    Waiting.Triple (Prompt (kind :: kinds)) (clearMask status cfg t) (fun _ => Prompt kinds)
      fun _ => False := by
  refine Waiting.Triple.modify fun s h => ?_
  obtain ⟨v, -, hclear⟩ := @clear_statusAccess status cfg t hne s
  rcases hclear with hclear | hclear
  · rw [hclear]
    exact h.weaken.didWrite t.reg v
  · rw [hclear]
    exact (h.didRead t.reg).didWrite t.reg v

end Prompt

end Rules

/-! A reset of registers is a store to each, on every kind of bus. -/

section Reset

variable {σ : Type} {A : RegAccess σ} {l : Reglist} {prog : σ → σ}

/-- Store the merged reset values to the registers. -/
def storeResets (A : RegAccess σ) (l : Reglist) (s : σ) : σ :=
  l.regs.foldl (fun s r => A.store r (resetUnion r (onReg l.elements r)) s) s

section StoreEach

variable {regs : List Reg} {value : Reg → Nat} {r : Reg}

theorem StatusBus.file_storeEach (s : StatusBus) :
    (s.storeEach regs value).file = regs.foldl (fun f r => f.store r (value r)) s.file := by
  induction regs generalizing s with
  | nil => rfl
  | cons r regs ih => exact ih (s.didWrite r (value r))

theorem StatusBus.value_storeEach_of_not_mem (hr : r ∉ regs) (s : StatusBus) :
    (s.storeEach regs value).file.value r = s.file.value r := by
  induction regs generalizing s with
  | nil => rfl
  | cons q regs ih =>
      rw [List.mem_cons, not_or] at hr
      exact (ih hr.2 _).trans (s.file.store_value_of_ne hr.1 _)

theorem StatusBus.value_storeEach_of_mem (hr : r ∈ regs) (hlt : value r < 2 ^ r.width)
    (s : StatusBus) : (s.storeEach regs value).file.value r = value r := by
  induction regs generalizing s with
  | nil => cases hr
  | cons q regs ih =>
      by_cases hrest : r ∈ regs
      · exact ih hrest _
      · obtain rfl := (List.mem_cons.mp hr).resolve_right hrest
        exact (value_storeEach_of_not_mem hrest _).trans (s.file.store_value_of_lt r hlt)

end StoreEach

theorem foldl_commands {elements : List RegmaskType} {rs : List Reg} {ms : List RegmaskType}
    {commands : List (σ → σ)} (hms : List.Forall₂ (Merged elements) rs ms)
    (hcommands : List.Forall₂ (fun m c => functorRegResetTo A m = .ok c) ms commands) (s : σ) :
    commands.foldl (fun s c => c s) s =
      rs.foldl (fun s r => A.store r (resetUnion r (onReg elements r)) s) s := by
  induction hms generalizing commands s with
  | nil =>
      cases hcommands
      rfl
  | @cons r m rs ms hm _ ih =>
      cases hcommands with
      | @cons _ c _ commands hc hrest =>
          obtain ⟨hreg, -, hpatch⟩ := hm.spec
          have hvalue := resetToValue_of_patch hreg hpatch
          obtain ⟨-, rfl⟩ := functorRegResetTo_eq_ok_iff.mp hc
          have hstore : m.resetTo A s = A.store r (resetUnion r (onReg elements r)) s := by
            rw [← hvalue, ← hreg]
            rfl
          rw [List.foldl_cons, List.foldl_cons, hstore]
          exact ih hrest _

theorem Reglist.resetTo_eq_storeResets (h : l.resetTo A = .ok prog) :
    prog = storeResets A l := by
  obtain ⟨commands, hcommands, rfl⟩ := Typelist.forEach_eq_ok_iff.mp h
  funext s
  exact foldl_commands l.forall₂_uniqueMergedList hcommands s

/-- A strict reset stores to each of its registers the reset value of the list. -/
theorem strictResetTo_eq_stores {trees : List (ListTree Element)} {regs : List Reg}
    (h : strictResetTo A trees regs = .ok prog) :
    ∃ (l : Reglist) (rs : List Reg), reglistOf trees = .ok l ∧ (∀ r, r ∈ rs ↔ r ∈ regs) ∧
      prog = fun s =>
        rs.foldl (fun s r => A.store r (resetUnion r (onReg l.elements r)) s) s := by
  obtain ⟨l, hl, hassert, strictList, hs, hreset⟩ := strictResetTo_eq_ok_iff.mp h
  have hleaves := (l.strictAssert_eq_ok_iff regs).mp hassert
  refine ⟨l, strictList.regs, hl, fun r => ?_, ?_⟩
  · rw [Reglist.mem_regs, hs, mem_strictElements_reg]
    refine ⟨fun hr => hr.elim id ?_, Or.inl⟩
    rintro ⟨t, ht, rfl⟩
    exact hleaves t ht
  · rw [Reglist.resetTo_eq_storeResets hreset]
    funext s
    simp only [storeResets, hs, resetUnion_strictElements]

open Patch

/-- Inside the mask of one of its elements, a list without conflicts stores the bits of
that element. -/
theorem testBit_resetUnion {r : Reg} {ts : List RegmaskType} (h : AllCompatible (patches ts))
    {t : RegmaskType} (ht : t ∈ ts) {i : Nat} (hi : t.clearMask.testBit i = true) :
    (resetUnion r ts).testBit i = t.setMask.testBit i := by
  have hmem : t.patch ∈ patches ts := List.mem_map.mpr ⟨t, ht, rfl⟩
  have hclear : i ∈ (mergeAll (patches ts)).clear := clear_le_mergeAll hmem hi
  have hset : i ∈ (mergeAll (patches ts)).set ↔ i ∈ t.patch.set := by
    refine ⟨fun hi' => ?_, fun hi' => set_le_mergeAll hmem hi'⟩
    have hinside := (mergeAll_inf_le_iff (patches ts) t.patch.clear t.patch.set).mpr
      fun p hp => (h p hp _ hmem).1
    exact hinside ⟨hi', hi⟩
  have hbit : i ∈ bits (resetUnion r ts) ↔ i ∈ t.patch.set := by
    rw [bits_resetUnion, Patch.apply, ← hset]
    exact ⟨fun h' => h'.resolve_left fun hout => hout.2 hclear, fun h' => .inr h'⟩
  exact Bool.eq_iff_iff.mpr hbit

/-- The reset of one register, as `reg<>::reset_to<>()` writes it. -/
theorem Reg.resetTo_eq_ok {r : Reg} {rm : List RegmaskType} (hperm : r.permission ≠ .ro)
    (hreg : ∀ t ∈ rm, t.reg = r) (hcompat : AllCompatible (patches rm)) :
    r.resetTo A rm = .ok (A.store r (resetUnion r rm)) := by
  have hneutral : mergeAll (patches (r.neutralRegmask :: rm)) = mergeAll (patches rm) := by
    change r.neutralRegmask.patch.merge (mergeAll (patches rm)) = _
    rw [r.neutralRegmask_patch]
    ext1 <;> simp [neutral]
  have hall : AllCompatible (patches (r.neutralRegmask :: rm)) := by
    refine (allCompatible_cons_iff_mergeAll _ _).mpr ⟨?_, hcompat⟩
    change r.neutralRegmask.patch.Compatible _
    rw [r.neutralRegmask_patch]
    exact (compatible_neutral _).symm
  obtain ⟨m, hm⟩ := mergedRegmask_isOk hreg hall
  obtain ⟨hmreg, -, -, hpatch⟩ := mergedRegmask_eq_ok hm
  have hvalue := resetToValue_of_patch (r := r) hmreg (hpatch.trans hneutral)
  rw [Regmask.resetToValue, show m.reg = r from hmreg] at hvalue
  simp only [Reg.resetTo, Reg.merge, hm, bind_eq_ok_iff, pure_eq_ok_iff]
  refine ⟨m, ⟨m, rfl, if_pos hmreg⟩, (), r.checkStore_eq_ok_iff.mpr hperm, ?_⟩
  rw [hvalue]

theorem testBit_resetUnion_of_not_mem {r : Reg} {ts : List RegmaskType} {i : Nat}
    (hi : ∀ t ∈ ts, t.clearMask.testBit i = false) :
    (resetUnion r ts).testBit i = r.resetValue.testBit i := by
  have hclear : i ∉ (mergeAll (patches ts)).clear := by
    have hle : (mergeAll (patches ts)).clear ≤ ({i} : Set Nat)ᶜ := by
      refine (mergeAll_clear_le_iff _ _).mpr fun p hp => ?_
      obtain ⟨t, ht, rfl⟩ := List.mem_map.mp hp
      rintro j hj rfl
      exact absurd hj (by simp [hi t ht])
    exact fun h => hle h rfl
  have hset : i ∉ (mergeAll (patches ts)).set := fun h =>
    hclear ((mergeAll (patches ts)).set_le h)
  have hbit : i ∈ bits (resetUnion r ts) ↔ i ∈ bits r.resetValue := by
    rw [bits_resetUnion, Patch.apply]
    exact ⟨fun h => (h.resolve_right hset).1, fun h => .inl ⟨h, hclear⟩⟩
  exact Bool.eq_iff_iff.mpr hbit

end Reset

end OpenMptl
