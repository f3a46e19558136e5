/-
The vector table read from the handlers' side.  The recursion visits slots, so a
handler is installed when its irq number has one; the templates that name irq
numbers bound them from below only.
-/
import OpenMptl.VectorTable

namespace OpenMptl

/-- The class templates that carry an irq number. -/
inductive IrqTemplate
  | irqBase
  | coreException
  | irqChannel
deriving DecidableEq, Repr

/-- The assertion in the body of the template; `irq_base<>` has none. -/
def IrqTemplate.accepts : IrqTemplate → Int → Bool
  | .irqBase, _ => true
  | .coreException, irqn => irqn < 0 && irqn > -16
  | .irqChannel, irqn => irqn ≥ 0

/-- `vector_table<>::irq_channel_offset` -/
def irqChannelOffset (resetIrqn : Int) : Int := -resetIrqn

/-- The isr is the entry of the table at the index of the irq number. -/
def VectorTable.Installs (vt : VectorTable) (resetIrqn : Int) (h : IrqHandler) : Prop :=
  0 ≤ h.irqn + irqChannelOffset resetIrqn ∧
    vt.isrVector[(h.irqn + irqChannelOffset resetIrqn).toNat]? = some h.value

/-- The irq number has a slot. -/
def HasSlot (numofInterruptChannels resetIrqn irqn : Int) : Prop :=
  resetIrqn ≤ irqn ∧ irqn < numofInterruptChannels

section Compiled

variable {numofInterruptChannels resetIrqn : Int} {stackTop : Nat} {list : List Element}
  {defaultIsr : Isr} {vt : VectorTable}

/-- The assertions of a table that compiles give the signs of the device's
constants. -/
theorem vectorTable_ok_bounds
    (hvt : vectorTable numofInterruptChannels resetIrqn stackTop list defaultIsr = .ok vt) :
    0 ≤ numofInterruptChannels ∧ resetIrqn < 0 := by
  simp only [vectorTable, bind_eq_ok_iff] at hvt
  obtain ⟨n, -, table, -, hcheck⟩ := hvt
  unfold checkVectorTable at hcheck
  split at hcheck
  · cases hcheck
  · split at hcheck
    · cases hcheck
    · exact ⟨by omega, by omega⟩

/-- A table that compiles is the list of its slots, and no slot has two handlers. -/
theorem vectorTable_ok_slots
    (hvt : vectorTable numofInterruptChannels resetIrqn stackTop list defaultIsr = .ok vt) :
    ∃ numof k : Nat, numofInterruptChannels = numof ∧ resetIrqn = -k ∧
      UniqueHandlers list numof k ∧ vt.isrVector = slots list defaultIsr numof k := by
  obtain ⟨hnumof, hreset⟩ := vectorTable_ok_bounds hvt
  obtain ⟨numof, rfl⟩ := Int.eq_ofNat_of_zero_le hnumof
  obtain ⟨k, hk⟩ := Int.eq_ofNat_of_zero_le (show 0 ≤ -resetIrqn by omega)
  obtain rfl : resetIrqn = -k := by omega
  have hpos : 0 < k := by omega
  obtain ⟨hbound, hunique⟩ := (exists_vectorTable_iff hpos).mp ⟨vt, hvt⟩
  rw [vectorTable_of_unique hpos hbound hunique] at hvt
  cases hvt
  exact ⟨numof, k, rfl, rfl, hunique, rfl⟩

/-- A handler is installed exactly when its irq number has a slot. -/
theorem installs_iff_hasSlot
    (hvt : vectorTable numofInterruptChannels resetIrqn stackTop list defaultIsr = .ok vt)
    {h : IrqHandler} (hmem : Element.irqHandler h ∈ list)
    (hreserved : reservedIrqn h.irqn = false) :
    vt.Installs resetIrqn h ↔ HasSlot numofInterruptChannels resetIrqn h.irqn := by
  obtain ⟨numof, k, rfl, rfl, hunique, hslots⟩ := vectorTable_ok_slots hvt
  have hoffset : irqChannelOffset (-k) = k := by simp [irqChannelOffset]
  unfold VectorTable.Installs HasSlot
  rw [hslots, hoffset]
  constructor
  · rintro ⟨hlow, hentry⟩
    have hlt : (h.irqn + k).toNat < numof + k := by
      rw [← @length_slots numof k list defaultIsr]
      exact (List.getElem?_eq_some_iff.mp hentry).1
    omega
  · rintro ⟨hlow, hhigh⟩
    rw [getElem_slots hlow hhigh,
      slotIsr_of_mem (hunique h.irqn hlow hhigh) hmem rfl hreserved]
    exact ⟨by omega, rfl⟩

end Compiled

/-- No handler is lost exactly when every irq number of the list has a slot. -/
theorem vectorTable_installs_all_iff (numofInterruptChannels resetIrqn : Int)
    (stackTop : Nat) (list : List Element) (defaultIsr : Isr) (vt : VectorTable)
    (hvt : vectorTable numofInterruptChannels resetIrqn stackTop list defaultIsr = .ok vt) :
    (∀ h, Element.irqHandler h ∈ list → reservedIrqn h.irqn = false →
        vt.Installs resetIrqn h) ↔
      ∀ h, Element.irqHandler h ∈ list → reservedIrqn h.irqn = false →
        resetIrqn ≤ h.irqn ∧ h.irqn < numofInterruptChannels := by
  constructor
  · intro hall h hmem hreserved
    exact (installs_iff_hasSlot hvt hmem hreserved).mp (hall h hmem hreserved)
  · intro hall h hmem hreserved
    exact (installs_iff_hasSlot hvt hmem hreserved).mpr (hall h hmem hreserved)

namespace InstalledHandlersTest

/-- `irq_handler< irq_channel<50>, isr_50 >`: TIM5 on the high density devices. -/
def irq50 : Element := .irqHandler ⟨2, 50, 0x2b00⟩

/-- On a medium density device the table has 43 channels: it compiles, and the
isr is nowhere in it. -/
theorem irqChannel_handler_lost :
    ∃ vt, vectorTable 43 (-15) 0x20005000 [irq50] 0x100 = .ok vt ∧
      IrqTemplate.irqChannel.accepts 50 = true ∧ reservedIrqn 50 = false ∧
      0x2b00 ∉ vt.isrVector ∧ ¬ vt.Installs (-15) ⟨2, 50, 0x2b00⟩ := by
  refine ⟨_, rfl, rfl, rfl, by decide, ?_⟩
  rintro ⟨-, hentry⟩
  revert hentry
  decide

theorem vectorTable_installs_all_iff_irq42 :
    ∃ vt, vectorTable 43 (-15) 0x20005000 [VectorTableTest.irq42] 0x100 = .ok vt ∧
      vt.Installs (-15) ⟨0, 42, 0x2a00⟩ := by
  refine ⟨_, rfl, ?_⟩
  have hinstalls := vectorTable_installs_all_iff 43 (-15) 0x20005000
    [VectorTableTest.irq42] 0x100 _ rfl
  refine hinstalls.mpr ?_ ⟨0, 42, 0x2a00⟩ (by decide) rfl
  intro h hmem _
  simp only [VectorTableTest.irq42, List.mem_singleton, Element.irqHandler.injEq] at hmem
  subst hmem
  decide

end InstalledHandlersTest

end OpenMptl
