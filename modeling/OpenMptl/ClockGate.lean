/-
Peripherals whose clock must run.  A store to a register of a peripheral without its clock
is lost, and the bits that switch the clocks on are in registers themselves.  A list of
register masks is reset register by register, so the order of the list decides.
-/
import OpenMptl.Lockstep
import OpenMptl.RegvalFields

namespace OpenMptl

open Patch

/-- The registers with their contents, and those that a store has not reached. -/
structure GatedFile where
  file : RegFile
  lost : List Reg

/-- The bit that switches on the clock of a register; the registers of these bits need no
clock. -/
structure ClockGates where
  gate : Reg → Option (Reg × Nat)
  ungated : ∀ {r e i}, gate r = some (e, i) → gate e = none

namespace ClockGates

variable (G : ClockGates)

def running (r : Reg) (f : RegFile) : Bool :=
  match G.gate r with
  | none => true
  | some (e, i) => (f.value e).testBit i

def load (r : Reg) (s : GatedFile) : Nat := if G.running r s.file then s.file.value r else 0

def store (r : Reg) (v : Nat) (s : GatedFile) : GatedFile :=
  if G.running r s.file then { s with file := s.file.store r v }
  else { s with lost := s.lost ++ [r] }

def access : RegAccess GatedFile where
  load r s := (G.load r s, s)
  store := G.store
  bitset r n s := G.store r (s.file.value r ||| 2 ^ n) s
  bitclear r n s := G.store r (s.file.value r &&& bitNot r.width (2 ^ n)) s
  bittest r n s := ((G.load r s).testBit n, s)

/-- Every register of the list is enabled by an element before it. -/
def SelfClocked (ts : List RegmaskType) : Prop :=
  ∀ before t after, ts = before ++ t :: after → ∀ e i, G.gate t.reg = some (e, i) →
    ∃ c ∈ before, c.reg = e ∧ c.setMask.testBit i = true

variable {G} {q r : Reg} {v : Nat} {s : GatedFile} {f : RegFile} {regs done : List Reg}
  {value : Reg → Nat}

theorem running_of_ungated (h : G.gate r = none) (f : RegFile) : G.running r f = true := by
  rw [running, h]

theorem running_iff :
    G.running r f = true ↔ ∀ e i, G.gate r = some (e, i) → (f.value e).testBit i = true := by
  rw [running]
  cases hgate : G.gate r with
  | none => simp
  | some p => simp [Prod.ext_iff]

theorem store_of_running (h : G.running r s.file = true) :
    G.store r v s = { s with file := s.file.store r v } := if_pos h

theorem store_of_stopped (h : G.running r s.file = false) :
    G.store r v s = { s with lost := s.lost ++ [r] } := by
  rw [store, h]
  rfl

theorem value_store_of_ne (h : r ≠ q) (v : Nat) (s : GatedFile) :
    (G.store q v s).file.value r = s.file.value r := by
  cases hrunning : G.running q s.file with
  | true =>
      rw [store_of_running hrunning]
      exact s.file.store_value_of_ne h v
  | false => rw [store_of_stopped hrunning]

/-! A sequence of stores. -/

theorem lost_grows (regs : List Reg) (s : GatedFile) :
    s.lost <+: (regs.foldl (fun s r => G.store r (value r) s) s).lost := by
  induction regs generalizing s with
  | nil => exact List.prefix_refl _
  | cons r regs ih =>
      refine List.IsPrefix.trans ?_ (ih (G.store r (value r) s))
      cases hrunning : G.running r s.file with
      | true => simp [store_of_running hrunning]
      | false => simp [store_of_stopped hrunning]

/-- Nothing is lost when each clock runs in its turn. -/
theorem lost_eq_nil_iff (hs : s.lost = []) :
    (regs.foldl (fun s r => G.store r (value r) s) s).lost = [] ↔
      Lockstep.GoodAlong (fun s r => G.store r (value r) s)
        (fun s r => G.running r s.file = true) s regs := by
  induction regs generalizing s with
  | nil => exact iff_of_true hs Lockstep.goodAlong_nil
  | cons r regs ih =>
      rw [Lockstep.goodAlong_cons, List.foldl_cons]
      cases hrunning : G.running r s.file with
      | true =>
          have hstore : (G.store r (value r) s).lost = [] := by
            rw [store_of_running hrunning]
            exact hs
          rw [ih hstore, and_iff_right rfl]
      | false =>
          refine iff_of_false (fun hlost => ?_) fun h => Bool.false_ne_true h.1
          have hprefix := @lost_grows G value regs (G.store r (value r) s)
          rw [hlost, List.prefix_nil, store_of_stopped hrunning] at hprefix
          exact List.append_ne_nil_of_right_ne_nil s.lost (List.cons_ne_nil r []) hprefix

/-- A run that loses nothing is one on registers that need no clocks. -/
theorem file_foldl (h : (regs.foldl (fun s r => G.store r (value r) s) s).lost = [])
    (hs : s.lost = []) :
    (regs.foldl (fun s r => G.store r (value r) s) s).file =
      regs.foldl (fun f r => f.store r (value r)) s.file := by
  rw [lost_eq_nil_iff hs] at h
  induction regs generalizing s with
  | nil => rfl
  | cons r regs ih =>
      obtain ⟨hrunning, hrest⟩ := Lockstep.goodAlong_cons.mp h
      have hstore : G.store r (value r) s = { s with file := s.file.store r (value r) } :=
        store_of_running hrunning
      rw [List.foldl_cons, List.foldl_cons]
      rw [hstore] at hrest ⊢
      exact ih hrest hs

/-- The registers with the enable bits are always reached. -/
theorem value_foldl_of_ungated (hr : G.gate r = none) (hvalue : ∀ q, value q < 2 ^ q.width)
    (regs : List Reg) (s : GatedFile) :
    (regs.foldl (fun s r => G.store r (value r) s) s).file.value r =
      if r ∈ regs then value r else s.file.value r := by
  induction regs using List.reverseRecOn with
  | nil => rfl
  | append_singleton regs q ih =>
      rw [List.foldl_append, List.foldl_cons, List.foldl_nil]
      by_cases hq : r = q
      · subst hq
        rw [store_of_running (running_of_ungated hr _), if_pos (by simp)]
        exact RegFile.store_value_of_lt _ r (hvalue r)
      · have hmem : r ∈ regs ++ [q] ↔ r ∈ regs := by simp [hq]
        rw [value_store_of_ne hq, ih]
        simp only [hmem]

/-! A list of register masks. -/

/-- The first occurrences in a list, with what stands before them. -/
theorem prefix_eraseDups_iff {α : Type} [DecidableEq α] {xs done : List α} {x : α} :
    done ++ [x] <+: xs.eraseDups ↔
      ∃ before after, xs = before ++ x :: after ∧ x ∉ before ∧ done = before.eraseDups := by
  constructor
  · intro h
    induction xs using List.reverseRecOn with
    | nil => simp at h
    | append_singleton xs y ih =>
        have hshorter : done ++ [x] <+: xs.eraseDups →
            ∃ before after, xs ++ [y] = before ++ x :: after ∧ x ∉ before ∧
              done = before.eraseDups := by
          intro hxs
          obtain ⟨before, after, rfl, hx, hdone⟩ := ih hxs
          exact ⟨before, after ++ [y], by simp, hx, hdone⟩
        by_cases hy : y ∈ xs
        · have hsame : (xs ++ [y]).eraseDups = xs.eraseDups := by
            simp [List.eraseDups_append, List.removeAll, hy]
          exact hshorter (hsame ▸ h)
        · have hlonger : (xs ++ [y]).eraseDups = xs.eraseDups ++ [y] := by
            simp [List.eraseDups_append, List.removeAll, hy, List.eraseDups_cons]
          rw [hlonger] at h
          rcases List.prefix_concat_iff.mp h with heq | hxs
          · obtain ⟨hdone, hlast⟩ := List.append_inj' heq rfl
            obtain rfl : x = y := List.head_eq_of_cons_eq hlast
            exact ⟨xs, [], rfl, hy, hdone⟩
          · exact hshorter hxs
  · rintro ⟨before, after, rfl, hx, rfl⟩
    refine ⟨((after.removeAll before).filter fun b => !b == x).eraseDups, ?_⟩
    simp [List.eraseDups_append, List.removeAll, hx, List.eraseDups_cons]

/-- A store of the reset reaches its register when the enable bit has its reset value from
the list, or from before if its register comes later. -/
theorem resetGoodAlong_iff {l : Reglist} (s : GatedFile) :
    Lockstep.GoodAlong
        (fun s r => G.store r (resetUnion r (onReg l.elements r)) s)
        (fun s r => G.running r s.file = true) s l.regs ↔
      ∀ before t after, l.elements = before ++ t :: after →
        t.reg ∉ before.map (fun u => u.reg) → ∀ e i, G.gate t.reg = some (e, i) →
          (if e ∈ before.map (fun u => u.reg) then resetUnion e (onReg l.elements e)
            else s.file.value e).testBit i = true := by
  have hvalue : ∀ q, resetUnion q (onReg l.elements q) < 2 ^ q.width :=
    fun q => resetUnion_lt fun t ht => (mem_onReg.mp ht).2
  have hrunning : ∀ (before : List RegmaskType) (t : RegmaskType),
      G.running t.reg (((before.map fun u => u.reg).eraseDups).foldl
        (fun s r => G.store r (resetUnion r (onReg l.elements r)) s) s).file = true ↔
      ∀ e i, G.gate t.reg = some (e, i) →
        (if e ∈ before.map (fun u => u.reg) then resetUnion e (onReg l.elements e)
          else s.file.value e).testBit i = true := by
    intro before t
    rw [running_iff]
    refine forall₃_congr fun e i hgate => ?_
    rw [value_foldl_of_ungated (G.ungated hgate) hvalue]
    simp only [List.mem_eraseDups]
  constructor
  · intro h before t after hsplit hfirst
    refine (hrunning before t).mp (h _ t.reg ?_)
    rw [Reglist.regs, prefix_eraseDups_iff]
    refine ⟨before.map fun u => u.reg, after.map fun u => u.reg, ?_, hfirst, rfl⟩
    rw [hsplit, List.map_append, List.map_cons]
  · intro h done r hdone
    rw [Reglist.regs, prefix_eraseDups_iff] at hdone
    obtain ⟨before, after, hsplit, hfirst, rfl⟩ := hdone
    obtain ⟨ts, us, helements, rfl, hus⟩ := List.map_eq_append_iff.mp hsplit
    obtain ⟨t, vs, rfl, rfl, -⟩ := List.map_eq_cons_iff.mp hus
    exact (hrunning ts t).mpr (h ts t vs helements hfirst)

theorem SelfClocked.append {ts us : List RegmaskType} (ht : G.SelfClocked ts)
    (hu : G.SelfClocked us) : G.SelfClocked (ts ++ us) := by
  intro before t after hsplit e i hgate
  rcases List.append_eq_append_iff.mp hsplit with ⟨more, rfl, hus⟩ | ⟨more, rfl, hmore⟩
  · obtain ⟨c, hc, henables⟩ := hu more t after hus e i hgate
    exact ⟨c, List.mem_append_right ts hc, henables⟩
  · cases more with
    | nil =>
        obtain ⟨c, hc, -⟩ := hu [] t after hmore.symm e i hgate
        cases hc
    | cons u more =>
        obtain ⟨rfl, rfl⟩ := List.cons.inj hmore
        exact ht before t more rfl e i hgate

/-- A list that enables its own clocks loses nothing, whatever was enabled before. -/
theorem SelfClocked.enabled {l : Reglist} (h : G.SelfClocked l.elements)
    {before after : List RegmaskType} {t : RegmaskType} {e : Reg} {i : Nat}
    (hsplit : l.elements = before ++ t :: after) (hgate : G.gate t.reg = some (e, i)) :
    e ∈ before.map (fun u => u.reg) ∧
      (resetUnion e (onReg l.elements e)).testBit i = true := by
  obtain ⟨c, hc, rfl, hset⟩ := h before t after hsplit e i hgate
  have hmem : c ∈ onReg l.elements c.reg :=
    mem_onReg.mpr ⟨hsplit ▸ List.mem_append_left _ hc, rfl⟩
  have hclear : c.clearMask.testBit i = true := by
    by_contra hclear
    rw [c.testBit_setMask_of_clear (Bool.eq_false_of_not_eq_true hclear)] at hset
    cases hset
  refine ⟨List.mem_map_of_mem hc, ?_⟩
  rw [testBit_resetUnion (l.allCompatible_onReg c.reg) hmem hclear]
  exact hset

theorem lost_resetTo_iff {l : Reglist} {prog : GatedFile → GatedFile}
    (h : l.resetTo G.access = .ok prog) (f : RegFile) :
    (prog ⟨f, []⟩).lost = [] ↔
      ∀ before t after, l.elements = before ++ t :: after →
        t.reg ∉ before.map (fun u => u.reg) → ∀ e i, G.gate t.reg = some (e, i) →
          (if e ∈ before.map (fun u => u.reg) then resetUnion e (onReg l.elements e)
            else f.value e).testBit i = true := by
  rw [Reglist.resetTo_eq_storeResets h]
  exact (lost_eq_nil_iff rfl).trans (resetGoodAlong_iff ⟨f, []⟩)

/-- A reset that loses nothing does what a reset without clocks does. -/
theorem value_resetTo {l : Reglist} {prog : GatedFile → GatedFile}
    (h : l.resetTo G.access = .ok prog) {f : RegFile} (hlost : (prog ⟨f, []⟩).lost = [])
    (r : Reg) :
    (prog ⟨f, []⟩).file.value r =
      if r ∈ l.elements.map (fun u => u.reg) then resetUnion r (onReg l.elements r)
      else f.value r := by
  rw [Reglist.resetTo_eq_storeResets h] at hlost ⊢
  have hvalue : ∀ q, resetUnion q (onReg l.elements q) < 2 ^ q.width :=
    fun q => resetUnion_lt fun t ht => (mem_onReg.mp ht).2
  have hfile : (storeResets G.access l ⟨f, []⟩).file = l.regs.foldl
      (fun f r => f.store r (resetUnion r (onReg l.elements r))) f :=
    file_foldl hlost rfl
  have hmem : r ∈ l.regs ↔ r ∈ l.elements.map (fun u => u.reg) := List.mem_eraseDups
  have hplain := @StatusBus.file_storeEach l.regs
    (fun r => resetUnion r (onReg l.elements r)) ⟨f, [], []⟩
  rw [hfile, ← hplain]
  by_cases hr : r ∈ l.regs
  · rw [if_pos (hmem.mp hr), StatusBus.value_storeEach_of_mem hr (hvalue r)]
  · rw [if_neg (fun hin => hr (hmem.mpr hin)), StatusBus.value_storeEach_of_not_mem hr]

theorem SelfClocked.lost_resetTo {l : Reglist} (hclocked : G.SelfClocked l.elements)
    {prog : GatedFile → GatedFile} (h : l.resetTo G.access = .ok prog) (f : RegFile) :
    (prog ⟨f, []⟩).lost = [] := by
  refine (lost_resetTo_iff h f).mpr fun before t after hsplit _ e i hgate => ?_
  obtain ⟨hmem, hset⟩ := hclocked.enabled hsplit hgate
  rw [if_pos hmem]
  exact hset

end ClockGates

/-- The reset of a tree of resources loses no store exactly when at the first leaf on each
register its clock has been switched on, by what the whole tree stores if a leaf on the
enable register stands before; and then each register holds the union of its leaves. -/
theorem gatedReset_complete_iff {G : ClockGates} {trees : List (ListTree Element)} {l : Reglist}
    (h : makeReglist trees = .ok l) {prog : GatedFile → GatedFile}
    (hprog : l.resetTo G.access = .ok prog) (f : RegFile) :
    ((prog ⟨f, []⟩).lost = [] ↔
      ∀ before t after, regmaskLeaves trees = before ++ t :: after →
        t.reg ∉ before.map (fun u => u.reg) → ∀ e i, G.gate t.reg = some (e, i) →
          (if e ∈ before.map (fun u => u.reg)
            then resetUnion e (onReg (regmaskLeaves trees) e)
            else f.value e).testBit i = true) ∧
    ((prog ⟨f, []⟩).lost = [] → ∀ r, (prog ⟨f, []⟩).file.value r =
      if r ∈ (regmaskLeaves trees).map (fun u => u.reg)
      then resetUnion r (onReg (regmaskLeaves trees) r) else f.value r) := by
  rw [← makeReglist_elements h]
  exact ⟨ClockGates.lost_resetTo_iff hprog f, ClockGates.value_resetTo hprog⟩

namespace ClockGateTest

/-- A clock enable register, whose bit 2 is for the register after it. -/
def enr : Reg := ⟨.uint32, 0x18, .rw, 0, ValueType.two_pow_width_pos _⟩

def cr : Reg := ⟨.uint32, 0x800, .rw, 0, ValueType.two_pow_width_pos _⟩

def gates : ClockGates where
  gate r := if r.addr = 0x800 then some (enr, 2) else none
  ungated := by
    intro r e i h
    split at h
    · obtain ⟨rfl, -⟩ := Prod.mk.inj (Option.some.inj h)
      rfl
    · cases h

theorem enr_fits : 1 ≤ 1 ∧ 2 + 1 ≤ enr.width ∧ 2 < 32 ∧ 1 < 32 := by decide

def enableLeaf : ListTree Element :=
  .leaf (.regmask (Regbits.ofLow RegvalTest.host enr 2 1 enr_fits).toRegmaskType)

def crLeaf : ListTree Element :=
  .leaf (.regmask ⟨⟨cr, 0x30, 0xf0, by decide, by decide⟩, .regmask 0⟩)

/-- The clock first; and the clock too late, which matters only for a clock that was off. -/
theorem gatedReset_complete_iff_order :
    (∃ l prog, makeReglist [enableLeaf, crLeaf] = .ok l ∧ l.resetTo gates.access = .ok prog ∧
      (prog ⟨.atReset, []⟩).lost = [] ∧ (prog ⟨.atReset, []⟩).file.value cr = 0x30) ∧
    (∃ l prog, makeReglist [crLeaf, enableLeaf] = .ok l ∧ l.resetTo gates.access = .ok prog ∧
      (prog ⟨.atReset, []⟩).lost ≠ []) := by
  constructor
  · refine ⟨_, _, rfl, rfl, ?_⟩
    have h := @gatedReset_complete_iff gates [enableLeaf, crLeaf] _ rfl _ rfl .atReset
    have hlost := h.1.mpr (by
      intro before t after hsplit hfirst e i hgate
      rcases before with _ | ⟨b, _ | ⟨c, before⟩⟩
      · obtain ⟨rfl, -⟩ := List.cons.inj hsplit
        cases hgate
      · obtain ⟨rfl, hrest⟩ := List.cons.inj hsplit
        obtain ⟨rfl, -⟩ := List.cons.inj hrest
        obtain ⟨rfl, rfl⟩ := Prod.mk.inj (Option.some.inj hgate)
        decide
      · have hlength : 2 = (b :: c :: before ++ t :: after).length :=
          congrArg List.length hsplit
        simp at hlength)
    exact ⟨hlost, (h.2 hlost cr).trans (by decide)⟩
  · refine ⟨_, _, rfl, rfl, ?_⟩
    have h := @gatedReset_complete_iff gates [crLeaf, enableLeaf] _ rfl _ rfl .atReset
    exact fun hlost => absurd (h.1.mp hlost [] _ _ rfl (by simp) enr 2 rfl) (by decide)

end ClockGateTest

end OpenMptl
