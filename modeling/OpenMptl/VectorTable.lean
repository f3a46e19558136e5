/-
The interrupt vector table.  The recursion counts down from the last interrupt
channel to the reset vector and prepends one entry at a time, after looking the
handler up in the whole resource list.
-/
import OpenMptl.Reglist

namespace OpenMptl

/-- `mpl::irq_handler_list<>`: the elements derived from `irq_handler_base`. -/
def irqHandlerList (list : List Element) : List IrqHandler :=
  list.filterMap fun
    | .regmask _ => none
    | .reg _ => none
    | .irqHandler h => some h
    | .other _ => none

/-- `mpl::filter_irqn<irqn>` -/
def filterIrqn (irqn : Int) (h : IrqHandler) : Bool := decide (h.irqn = irqn)

def irqnList (list : List Element) (irqn : Int) : List IrqHandler :=
  Typelist.filter (irqHandlerList list) (filterIrqn irqn)

/-- `mpl::unique_irq_handler<>`, with `none` for `void`. -/
def uniqueIrqHandler (list : List Element) (irqn : Int) :
    Except CompileError (Option IrqHandler) :=
  Typelist.uniqueElement (irqnList list irqn)

def reservedIrqn (irqn : Int) : Bool :=
  irqn == -3 || irqn == -6 || irqn == -7 || irqn == -8 || irqn == -9

structure VectorTable where
  stackTop : Nat
  isrVector : List Isr
deriving DecidableEq, Repr

/-- `int irqn = (N - 1) + irqn_offset`: the sum is an `unsigned int`, which the
conversion to `int` reads as a signed number. -/
def vectorIrqn (n : Nat) (irqnOffset : Int) : Int := (n + irqnOffset).bmod (2 ^ 32)

/-- `irq_handler_type` of one recursion step. -/
def vectorHandler (list : List Element) (defaultIsr : Isr) (irqn : Int) :
    Except CompileError IrqHandler := do
  let irqHandlerResource ← uniqueIrqHandler list irqn
  let irqHandlerDefault : IrqHandler := ⟨0, irqn, defaultIsr⟩
  return match irqHandlerResource with
    | none => irqHandlerDefault
    | some resource => if reservedIrqn irqn then irqHandlerDefault else resource

/-- `mpl::make_vector_table<>`; the index of the source is one above `n` here. -/
def makeVectorTable (irqnOffset : Int) (list : List Element) (defaultIsr : Isr)
    (stackTop : Nat) : Nat → List IrqHandler → Except CompileError VectorTable
  | 0, tp => .ok ⟨stackTop, tp.map fun h => h.value⟩
  | n + 1, tp => do
      let handler ← vectorHandler list defaultIsr (vectorIrqn n irqnOffset)
      makeVectorTable irqnOffset list defaultIsr stackTop n (handler :: tp)

/-- The start index, an `unsigned int` template argument computed as an `int`. -/
def startIndex (numofInterruptChannels resetIrqn : Int) : Except CompileError Nat :=
  let n := numofInterruptChannels - resetIrqn
  if 0 ≤ n ∧ n < 2 ^ 31 then .ok n.toNat else .error .constantOverflow

/-- The assertions in the body of `vector_table<>`. -/
def checkVectorTable (numofInterruptChannels resetIrqn : Int) (table : VectorTable) :
    Except CompileError VectorTable :=
  if 0 ≤ resetIrqn then .error .resetIrqnNotNegative
  else if numofInterruptChannels < 0 then .error .invalidInterruptChannels
  else if (table.isrVector.length : Int) + 1 ≠ 1 + numofInterruptChannels + -resetIrqn then
    .error .vectorTableSize
  else .ok table

/-- `vector_table<stack_top, list, default_isr>` on a device with the given
`irq::numof_interrupt_channels` and `irq::reset::irqn`. -/
def vectorTable (numofInterruptChannels resetIrqn : Int) (stackTop : Nat)
    (list : List Element) (defaultIsr : Isr) : Except CompileError VectorTable := do
  let n ← startIndex numofInterruptChannels resetIrqn
  let table ← makeVectorTable resetIrqn list defaultIsr stackTop n []
  checkVectorTable numofInterruptChannels resetIrqn table

/-! The table as a function of the irq number. -/

/-- No irq number has two handlers in the list. -/
def UniqueHandler (list : List Element) (irqn : Int) : Prop :=
  (irqnList list irqn).length ≤ 1

/-- What the slot of an irq number holds. -/
def slotIsr (list : List Element) (defaultIsr : Isr) (irqn : Int) : Isr :=
  if reservedIrqn irqn then defaultIsr
  else match irqnList list irqn with
    | [] => defaultIsr
    | h :: _ => h.value

theorem mem_irqHandlerList (list : List Element) (h : IrqHandler) :
    h ∈ irqHandlerList list ↔ Element.irqHandler h ∈ list := by
  simp only [irqHandlerList, List.mem_filterMap]
  constructor
  · rintro ⟨e, he, hsome⟩
    cases e <;> simp at hsome
    exact hsome ▸ he
  · intro he
    exact ⟨_, he, rfl⟩

theorem mem_irqnList (list : List Element) (irqn : Int) (h : IrqHandler) :
    h ∈ irqnList list irqn ↔ Element.irqHandler h ∈ list ∧ h.irqn = irqn := by
  simp [irqnList, Typelist.filter_eq, filterIrqn, mem_irqHandlerList]

theorem irqnList_perm {list list' : List Element}
    (h : (irqHandlerList list).Perm (irqHandlerList list')) (irqn : Int) :
    (irqnList list irqn).Perm (irqnList list' irqn) := by
  simp only [irqnList, Typelist.filter_eq]
  exact h.filter _

/-- A step finds the handler exactly when it is unique. -/
theorem vectorHandler_of_unique {list : List Element} {irqn : Int}
    (h : UniqueHandler list irqn) (defaultIsr : Isr) :
    ∃ handler, vectorHandler list defaultIsr irqn = .ok handler ∧
      handler.value = slotIsr list defaultIsr irqn := by
  unfold UniqueHandler at h
  unfold vectorHandler uniqueIrqHandler slotIsr
  rcases hlist : irqnList list irqn with _ | ⟨handler, _ | ⟨second, rest⟩⟩
  · refine ⟨⟨0, irqn, defaultIsr⟩, rfl, ?_⟩
    simp
  · refine ⟨if reservedIrqn irqn then ⟨0, irqn, defaultIsr⟩ else handler, rfl, ?_⟩
    cases reservedIrqn irqn <;> rfl
  · rw [hlist] at h
    simp at h

theorem vectorHandler_of_not_unique {list : List Element} {irqn : Int}
    (h : ¬ UniqueHandler list irqn) (defaultIsr : Isr) :
    vectorHandler list defaultIsr irqn = .error .notUnique := by
  unfold UniqueHandler at h
  unfold vectorHandler uniqueIrqHandler
  rcases hlist : irqnList list irqn with _ | ⟨handler, _ | ⟨second, rest⟩⟩
  · simp [hlist] at h
  · simp [hlist] at h
  · rfl

section Recursion

variable {irqnOffset : Int} {list : List Element} {defaultIsr : Isr} {stackTop : Nat}

/-- The recursion lists the slots in ascending order of the irq number. -/
theorem makeVectorTable_of_unique {n : Nat} {tp : List IrqHandler}
    (h : ∀ k, k < n → UniqueHandler list (vectorIrqn k irqnOffset)) :
    makeVectorTable irqnOffset list defaultIsr stackTop n tp =
      .ok ⟨stackTop, ((List.range n).map fun k =>
        slotIsr list defaultIsr (vectorIrqn k irqnOffset)) ++ tp.map fun h => h.value⟩ := by
  induction n generalizing tp with
  | zero => rfl
  | succ n ih =>
      obtain ⟨handler, hok, hvalue⟩ :=
        vectorHandler_of_unique (h n (Nat.lt_succ_self n)) defaultIsr
      have hrest := @ih (handler :: tp) fun k hk => h k (Nat.lt_succ_of_lt hk)
      simp only [makeVectorTable, hok]
      change makeVectorTable irqnOffset list defaultIsr stackTop n (handler :: tp) = _
      simp [hrest, List.range_succ, hvalue]

theorem makeVectorTable_of_not_unique {n k : Nat} {tp : List IrqHandler} (hk : k < n)
    (h : ¬ UniqueHandler list (vectorIrqn k irqnOffset)) :
    makeVectorTable irqnOffset list defaultIsr stackTop n tp = .error .notUnique := by
  induction n generalizing tp with
  | zero => omega
  | succ n ih =>
      by_cases hn : UniqueHandler list (vectorIrqn n irqnOffset)
      · have hne : k ≠ n := by
          rintro rfl
          exact h hn
        obtain ⟨handler, hok, -⟩ := vectorHandler_of_unique hn defaultIsr
        simp only [makeVectorTable, hok]
        exact ih (by omega)
      · simp only [makeVectorTable, vectorHandler_of_not_unique hn]
        rfl

end Recursion

section Table

variable {numof k : Nat} {list list' : List Element} {defaultIsr : Isr} {stackTop : Nat}

theorem vectorIrqn_eq {n : Nat} (hn : n < numof + k) (hbound : numof + k < 2 ^ 31) :
    vectorIrqn n (-k) = n - k := by
  unfold vectorIrqn
  rw [← Int.sub_eq_add_neg]
  exact Int.bmod_eq_of_le (by omega) (by omega)

theorem startIndex_eq (hbound : numof + k < 2 ^ 31) :
    startIndex numof (-k) = .ok (numof + k) := by
  have hn : (0 : Int) ≤ numof - -k ∧ (numof : Int) - -k < 2 ^ 31 := by omega
  have hnat : ((numof : Int) - -k).toNat = numof + k := by omega
  simp only [startIndex, hn, and_self, ↓reduceIte, hnat]

theorem checkVectorTable_eq (hk : 0 < k) {table : VectorTable}
    (hsize : table.isrVector.length = numof + k) :
    checkVectorTable numof (-k) table = .ok table := by
  have hneg : ¬ (0 : Int) ≤ -k := by omega
  have hnonneg : ¬ (numof : Int) < 0 := by omega
  have hlength : ¬ (table.isrVector.length : Int) + 1 ≠ 1 + numof + - -k := by omega
  rw [checkVectorTable, if_neg hneg, if_neg hnonneg, if_neg hlength]

/-- The slots from `-k` on. -/
def slots (list : List Element) (defaultIsr : Isr) (numof k : Nat) : List Isr :=
  (List.range (numof + k)).map fun n : Nat => slotIsr list defaultIsr ((n : Int) - k)

theorem length_slots : (slots list defaultIsr numof k).length = numof + k := by
  simp [slots]

theorem getElem_slots {irqn : Int} (hlow : -k ≤ irqn) (hhigh : irqn < numof) :
    (slots list defaultIsr numof k)[(irqn + k).toNat]? =
      some (slotIsr list defaultIsr irqn) := by
  have hlt : (irqn + k).toNat < numof + k := by omega
  have hnumber : ((irqn + k).toNat : Int) - k = irqn := by omega
  rw [slots, List.getElem?_map, List.getElem?_range hlt, Option.map_some, hnumber]

/-- All irq numbers that have a slot. -/
def UniqueHandlers (list : List Element) (numof k : Nat) : Prop :=
  ∀ irqn : Int, -k ≤ irqn → irqn < numof → UniqueHandler list irqn

theorem vectorTable_of_unique (hk : 0 < k) (hbound : numof + k < 2 ^ 31)
    (h : UniqueHandlers list numof k) :
    vectorTable numof (-k) stackTop list defaultIsr =
      .ok ⟨stackTop, slots list defaultIsr numof k⟩ := by
  have hslots : ∀ n, n < numof + k → UniqueHandler list (vectorIrqn n (-k)) := by
    intro n hn
    rw [vectorIrqn_eq hn hbound]
    exact h _ (by omega) (by omega)
  have hmap : ((List.range (numof + k)).map fun n =>
      slotIsr list defaultIsr (vectorIrqn n (-k))) = slots list defaultIsr numof k := by
    apply List.map_congr_left
    intro n hn
    rw [vectorIrqn_eq (List.mem_range.mp hn) hbound]
  have htable := @makeVectorTable_of_unique (-k) list defaultIsr stackTop _ [] hslots
  rw [hmap, List.map_nil, List.append_nil] at htable
  simp only [vectorTable, startIndex_eq hbound, ok_bind, htable]
  exact checkVectorTable_eq hk length_slots

theorem vectorTable_of_not_unique (hbound : numof + k < 2 ^ 31)
    (h : ¬ UniqueHandlers list numof k) :
    vectorTable numof (-k) stackTop list defaultIsr = .error .notUnique := by
  unfold UniqueHandlers at h
  push Not at h
  obtain ⟨irqn, hlow, hhigh, hirqn⟩ := h
  have hslot : (irqn + k).toNat < numof + k := by omega
  have hnumber : vectorIrqn (irqn + k).toNat (-k) = irqn := by
    rw [vectorIrqn_eq hslot hbound]
    omega
  have htable := @makeVectorTable_of_not_unique (-k) list defaultIsr stackTop _ _ []
    hslot (hnumber.symm ▸ hirqn)
  simp only [vectorTable, startIndex_eq hbound, ok_bind, htable, error_bind]

theorem vectorTable_of_overflow (hbound : ¬ numof + k < 2 ^ 31) :
    vectorTable numof (-k) stackTop list defaultIsr = .error .constantOverflow := by
  have hn : ¬ ((0 : Int) ≤ numof - -k ∧ (numof : Int) - -k < 2 ^ 31) := by omega
  simp only [vectorTable, startIndex, hn, ↓reduceIte, error_bind]

theorem exists_vectorTable_iff (hk : 0 < k) :
    (∃ vt, vectorTable numof (-k) stackTop list defaultIsr = .ok vt) ↔
      numof + k < 2 ^ 31 ∧ UniqueHandlers list numof k := by
  by_cases hbound : numof + k < 2 ^ 31
  · by_cases h : UniqueHandlers list numof k
    · exact iff_of_true ⟨_, vectorTable_of_unique hk hbound h⟩ ⟨hbound, h⟩
    · rw [vectorTable_of_not_unique hbound h]
      simp [h]
  · rw [vectorTable_of_overflow hbound]
    simp only [reduceCtorEq, exists_false, hbound, false_and]

theorem uniqueHandler_iff_of_perm (h : (irqHandlerList list').Perm (irqHandlerList list))
    (irqn : Int) : UniqueHandler list' irqn ↔ UniqueHandler list irqn := by
  unfold UniqueHandler
  rw [(irqnList_perm h irqn).length_eq]

/-- A unique handler is found wherever it stands in the list. -/
theorem irqnList_eq_of_perm (h : (irqHandlerList list').Perm (irqHandlerList list))
    {irqn : Int} (hunique : UniqueHandler list irqn) :
    irqnList list' irqn = irqnList list irqn := by
  have hperm := irqnList_perm h irqn
  unfold UniqueHandler at hunique
  rcases hlist : irqnList list irqn with _ | ⟨handler, _ | ⟨second, rest⟩⟩
  · rw [hlist] at hperm
    exact hperm.eq_nil
  · rw [hlist] at hperm
    exact hperm.eq_singleton
  · simp [hlist] at hunique

theorem vectorTable_eq_of_perm (hk : 0 < k)
    (h : (irqHandlerList list').Perm (irqHandlerList list)) :
    vectorTable numof (-k) stackTop list' defaultIsr =
      vectorTable numof (-k) stackTop list defaultIsr := by
  by_cases hbound : numof + k < 2 ^ 31
  · have hiff : UniqueHandlers list' numof k ↔ UniqueHandlers list numof k := by
      simp only [UniqueHandlers, uniqueHandler_iff_of_perm h]
    by_cases hunique : UniqueHandlers list numof k
    · rw [vectorTable_of_unique hk hbound hunique,
        vectorTable_of_unique hk hbound (hiff.mpr hunique)]
      have hslots : slots list' defaultIsr numof k = slots list defaultIsr numof k := by
        apply List.map_congr_left
        intro n hn
        have hrange := List.mem_range.mp hn
        have hlist := irqnList_eq_of_perm h (hunique (n - k) (by omega) (by omega))
        simp only [slotIsr, hlist]
      rw [hslots]
    · rw [vectorTable_of_not_unique hbound hunique,
        vectorTable_of_not_unique hbound (mt hiff.mp hunique)]
  · rw [vectorTable_of_overflow hbound, vectorTable_of_overflow hbound]

theorem slotIsr_of_mem {irqn : Int} (hunique : UniqueHandler list irqn) {h : IrqHandler}
    (hmem : Element.irqHandler h ∈ list) (hirqn : h.irqn = irqn)
    (hreserved : reservedIrqn irqn = false) : slotIsr list defaultIsr irqn = h.value := by
  have hlist := (mem_irqnList list irqn h).mpr ⟨hmem, hirqn⟩
  unfold UniqueHandler at hunique
  rcases heq : irqnList list irqn with _ | ⟨handler, _ | ⟨second, rest⟩⟩
  · simp [heq] at hlist
  · obtain rfl := List.mem_singleton.mp (heq ▸ hlist)
    simp [slotIsr, hreserved, heq]
  · simp [heq] at hunique

theorem slotIsr_of_none {irqn : Int}
    (h : (∀ h, Element.irqHandler h ∈ list → h.irqn ≠ irqn) ∨ reservedIrqn irqn = true) :
    slotIsr list defaultIsr irqn = defaultIsr := by
  rcases h with hnone | hreserved
  · have hnil : irqnList list irqn = [] := by
      refine List.eq_nil_iff_forall_not_mem.mpr fun h hmem => ?_
      obtain ⟨hlist, hirqn⟩ := (mem_irqnList list irqn h).mp hmem
      exact hnone h hlist hirqn
    simp [slotIsr, hnil]
  · simp [slotIsr, hreserved]

end Table

/-- When the table compiles, what stands in each slot, and that the order of the
list and its other elements do not matter. -/
theorem vectorTable_dispatches_unique_handlers (numof k : Nat) (hk : 0 < k)
    (stackTop : Nat) (list : List Element) (defaultIsr : Isr) :
    ((∃ vt, vectorTable numof (-k) stackTop list defaultIsr = .ok vt) ↔
      numof + k < 2 ^ 31 ∧
        ∀ irqn : Int, -k ≤ irqn → irqn < numof → (irqnList list irqn).length ≤ 1) ∧
    (∀ vt, vectorTable numof (-k) stackTop list defaultIsr = .ok vt →
      vt.stackTop = stackTop ∧ vt.isrVector.length = numof + k ∧
        ∀ irqn : Int, -k ≤ irqn → irqn < numof →
          (∀ h, Element.irqHandler h ∈ list → h.irqn = irqn → reservedIrqn irqn = false →
            vt.isrVector[(irqn + k).toNat]? = some h.value) ∧
          ((∀ h, Element.irqHandler h ∈ list → h.irqn ≠ irqn) ∨
              reservedIrqn irqn = true →
            vt.isrVector[(irqn + k).toNat]? = some defaultIsr)) ∧
    (∀ list' : List Element, (irqHandlerList list').Perm (irqHandlerList list) →
      vectorTable numof (-k) stackTop list' defaultIsr =
        vectorTable numof (-k) stackTop list defaultIsr) := by
  refine ⟨exists_vectorTable_iff hk, ?_, fun list' h => vectorTable_eq_of_perm hk h⟩
  intro vt hvt
  obtain ⟨hbound, hunique⟩ := (exists_vectorTable_iff hk).mp ⟨vt, hvt⟩
  rw [vectorTable_of_unique hk hbound hunique] at hvt
  cases hvt
  refine ⟨rfl, length_slots, fun irqn hlow hhigh => ?_⟩
  constructor
  · intro h hmem hirqn hreserved
    rw [getElem_slots hlow hhigh,
      slotIsr_of_mem (hunique irqn hlow hhigh) hmem hirqn hreserved]
  · intro h
    rw [getElem_slots hlow hhigh, slotIsr_of_none h]

namespace VectorTableTest

/-- `irq_handler< irq_base<42>, isr_42 >` with `isr_42` at address 0x2a00. -/
def irq42 : Element := .irqHandler ⟨0, 42, 0x2a00⟩

theorem vectorTable_dispatches_unique_handlers_irq42 :
    ∃ vt, vectorTable 43 (-15) 0x20005000 [.other 0, irq42] 0x100 = .ok vt ∧
      vt.isrVector[57]? = some 0x2a00 ∧ vt.isrVector[56]? = some 0x100 := by
  obtain ⟨-, hentries, -⟩ :=
    vectorTable_dispatches_unique_handlers 43 15 (by decide) 0x20005000 [.other 0, irq42]
      0x100
  refine ⟨_, rfl, ?_⟩
  obtain ⟨-, -, hslot⟩ := hentries _ rfl
  have hnone : ∀ h, Element.irqHandler h ∈ [.other 0, irq42] → h.irqn ≠ 41 := by
    intro h hmem
    simp only [irq42, List.mem_cons, reduceCtorEq, Element.irqHandler.injEq,
      List.not_mem_nil, or_false, false_or] at hmem
    subst hmem
    decide
  exact ⟨(hslot 42 (by decide) (by decide)).1 ⟨0, 42, 0x2a00⟩ (by decide) rfl rfl,
    (hslot 41 (by decide) (by decide)).2 (Or.inl hnone)⟩

end VectorTableTest

end OpenMptl
