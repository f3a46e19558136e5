/-
Cells that several threads write.  An operation stores a value that does not depend on
the old one, or it loads the cell and stores what it makes of the loaded value later,
when other threads have gone on.  A cell has what was stored to it last; its operations
are as if one had come after the other if nobody changes the cell between the load and
the store of another one.
-/
import Mathlib.Logic.Function.Basic
import OpenMptl.Transition

namespace OpenMptl

namespace SharedCells

universe u v w x

variable {τ : Type u} {κ : Type v} {α : Type w} {ο : Type x}

/-- `loaded` is the operation of each thread that stands between load and store, with
the loaded value; `log` lists the operations in the order of their stores, with the values
that they stored. -/
structure State (τ : Type u) (κ : Type v) (α : Type w) (ο : Type x) where
  cell : κ → α
  loaded : τ → Option (κ × ο × α)
  log : List (κ × ο × α)

variable [DecidableEq κ]

/-- What a log makes of a cell that only sees its own entries. -/
def along (f : ο × α → α → α) (log : List (κ × ο × α)) (k : κ) (a : α) : α :=
  (log.filter fun e => decide (e.1 = k)).foldl (fun a e => f e.2 a) a

/-- Nobody has started, and the cells are given. -/
def Initial (cell : κ → α) (s : State τ κ α ο) : Prop :=
  s.cell = cell ∧ (∀ t, s.loaded t = none) ∧ s.log = []

/-- As long as a thread stands between load and store, the cell does not change. -/
def Undisturbed (k : κ) (s s' : State τ κ α ο) : Prop :=
  ∀ t o v, s.loaded t = some (k, o, v) → s'.loaded t = s.loaded t → s'.cell k = s.cell k

/-- A cell is as its operations leave it, and a value loaded from it is still current. -/
structure Current (apply : ο → α → α) (cell : κ → α) (k : κ) (s : State τ κ α ο) : Prop where
  sequential : s.cell k = along (fun e => apply e.1) s.log k (cell k)
  current : ∀ t o v, s.loaded t = some (k, o, v) → v = s.cell k

variable {apply : ο → α → α} {cell : κ → α} {k : κ} {s s' : State τ κ α ο}

theorem along_append_self (f : ο × α → α → α) (log : List (κ × ο × α)) (k : κ) (e : ο × α)
    (a : α) : along f (log ++ [(k, e)]) k a = f e (along f log k a) := by
  have hlast : List.filter (fun e => decide (e.1 = k)) [(k, e)] = [(k, e)] :=
    List.filter_cons_of_pos (decide_eq_true rfl)
  rw [along, List.filter_append, hlast, List.foldl_append]
  rfl

theorem along_append_of_ne (f : ο × α → α → α) (log : List (κ × ο × α)) {k k' : κ} (e : ο × α)
    (a : α) (hk : k' ≠ k) : along f (log ++ [(k', e)]) k a = along f log k a := by
  rw [along, List.filter_append, List.filter_cons_of_neg (by simpa using hk), List.filter_nil,
    List.append_nil]
  rfl

/-- A store of any thread is the last one in the log of its cell. -/
theorem cell_update {log : List (κ × ο × α)} {a : α}
    (h : s.cell k = along (fun e _ => e.2) log k a) (k' : κ) (o : ο) (v : α) :
    Function.update s.cell k' v k = along (fun e _ => e.2) (log ++ [(k', o, v)]) k a := by
  by_cases hk : k' = k
  · subst hk
    rw [along_append_self, Function.update_self]
  · rw [along_append_of_ne _ _ _ _ hk, Function.update_of_ne (Ne.symm hk), h]

theorem Current.of_initial (h : Initial cell s) : Current apply cell k s := by
  obtain ⟨hcell, hloaded, hlog⟩ := h
  constructor
  · rw [hcell, hlog]
    rfl
  · intro t o v hsome
    rw [hloaded t] at hsome
    cases hsome

variable [DecidableEq τ]

/-- Any thread makes its next access. -/
inductive Step (apply : ο → α → α) : State τ κ α ο → State τ κ α ο → Prop
  | store (s : State τ κ α ο) (t : τ) (k : κ) (o : ο) (v : α) (hidle : s.loaded t = none)
      (hv : ∀ a, apply o a = v) :
      Step apply s
        { s with cell := Function.update s.cell k v, log := s.log ++ [(k, o, v)] }
  | load (s : State τ κ α ο) (t : τ) (k : κ) (o : ο) (hidle : s.loaded t = none) :
      Step apply s
        { s with loaded := Function.update s.loaded t (some (k, o, s.cell k)) }
  | storeBack (s : State τ κ α ο) (t : τ) (k : κ) (o : ο) (v : α)
      (hloaded : s.loaded t = some (k, o, v)) :
      Step apply s
        { cell := Function.update s.cell k (apply o v)
          loaded := Function.update s.loaded t none
          log := s.log ++ [(k, o, apply o v)] }

/-- Whatever the order of the steps, a cell has what was stored to it last. -/
theorem cell_eq_last (h : Reachable (Initial cell) (Step apply) s) (k : κ) :
    s.cell k = along (fun e _ => e.2) s.log k (cell k) := by
  let inv (s : State τ κ α ο) : Prop := s.cell k = along (fun e _ => e.2) s.log k (cell k)
  have hstart : ∀ s, Initial cell s → inv s := by
    rintro s ⟨hcell, -, hlog⟩
    simp only [inv, hcell, hlog]
    rfl
  have hstep : ∀ s t, inv s → Step apply s t → inv t := by
    intro s t hs hstep
    cases hstep with
    | store t k' o v => exact cell_update hs k' o v
    | load => exact hs
    | storeBack t k' o v => exact cell_update hs k' o (apply o v)
  exact h.invariant hstart hstep

theorem Current.step (h : Current apply cell k s) (hstep : Step apply s s')
    (hundisturbed : Undisturbed k s s') : Current apply cell k s' := by
  cases hstep with
  | store t k' o v hidle hv =>
      refine ⟨?_, fun t' o' v' hloaded => ?_⟩
      · by_cases hk : k' = k
        · subst hk
          rw [along_append_self]
          exact (Function.update_self _ _ _).trans (hv _).symm
        · rw [along_append_of_ne _ _ _ _ hk, ← h.sequential]
          exact Function.update_of_ne (Ne.symm hk) v s.cell
      · rw [h.current t' o' v' hloaded]
        exact (hundisturbed t' o' v' hloaded rfl).symm
  | load t k' o hidle =>
      refine ⟨h.sequential, fun t' o' v' hloaded => ?_⟩
      by_cases ht : t' = t
      · subst ht
        simp only [Function.update_self, Option.some.injEq, Prod.mk.injEq] at hloaded
        obtain ⟨rfl, rfl, rfl⟩ := hloaded
        rfl
      · dsimp only at hloaded
        rw [Function.update_of_ne ht] at hloaded
        exact h.current t' o' v' hloaded
  | storeBack t k' o v hloaded =>
      refine ⟨?_, fun t' o' v' hloaded' => ?_⟩
      · by_cases hk : k' = k
        · subst hk
          rw [along_append_self, ← h.sequential, ← h.current t o v hloaded]
          exact Function.update_self _ _ _
        · rw [along_append_of_ne _ _ _ _ hk, ← h.sequential]
          exact Function.update_of_ne (Ne.symm hk) _ s.cell
      · dsimp only at hloaded'
        by_cases ht : t' = t
        · subst ht
          rw [Function.update_self] at hloaded'
          cases hloaded'
        · have hkept : Function.update s.loaded t none t' = s.loaded t' :=
            Function.update_of_ne ht none s.loaded
          rw [hkept] at hloaded'
          rw [h.current t' o' v' hloaded']
          exact (hundisturbed t' o' v' hloaded' hkept).symm

/-- No update of an undisturbed cell is lost, whatever the order of the steps. -/
theorem reachable_current
    (h : Reachable (Initial cell) (fun s s' => Step apply s s' ∧ Undisturbed k s s') s) :
    Current apply cell k s :=
  h.invariant (fun _ hinit => .of_initial hinit) fun _ _ hs hstep => hs.step hstep.1 hstep.2

end SharedCells

end OpenMptl
