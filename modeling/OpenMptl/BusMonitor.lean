/-
A monitor reads the trace of the bus.  It has a state of its own, and what it demands must
hold after every access; a program is verified stage by stage, from what is known of the
registers and of the monitor at each.
-/
import OpenMptl.StatusBus

namespace OpenMptl

universe u

structure BusMonitor (γ : Type u) where
  observe : γ → BusEvent → γ
  good : γ → Prop

namespace BusMonitor

variable {γ : Type u} (M : BusMonitor γ)

def after (g : γ) (events : List BusEvent) : γ := events.foldl M.observe g

/-- What the monitor demands holds after each part of the trace. -/
def GoodAlong (g : γ) (events : List BusEvent) : Prop :=
  ∀ done, done <+: events → M.good (M.after g done)

/-- The trace so far is good; `known` relates the registers and the monitor. -/
structure Watched (g₀ : γ) (known : RegFile → γ → Prop) (s : StatusBus) : Prop where
  along : M.GoodAlong g₀ s.events
  known : known s.file (M.after g₀ s.events)

variable {M} {g g₀ : γ} {events : List BusEvent} {e : BusEvent} {status : Reg → Nat}
  {known known' known'' : RegFile → γ → Prop} {s : StatusBus} {r : Reg} {v : Nat}

theorem after_append : M.after g (events ++ [e]) = M.observe (M.after g events) e := by
  rw [after, List.foldl_append]
  rfl

theorem goodAlong_nil (h : M.good g) : M.GoodAlong g [] := by
  intro done hdone
  rw [List.prefix_nil.mp hdone]
  exact h

theorem goodAlong_append (h : M.GoodAlong g events)
    (hnext : M.good (M.observe (M.after g events) e)) : M.GoodAlong g (events ++ [e]) := by
  intro done hdone
  rcases List.prefix_concat_iff.mp hdone with rfl | hbefore
  · rw [after_append]
    exact hnext
  · exact h done hbefore

theorem GoodAlong.good (h : M.GoodAlong g events) : M.good (M.after g events) :=
  h events (List.prefix_refl events)

namespace Watched

theorem mono (h : M.Watched g₀ known s)
    (hknown : ∀ f g, M.good g → known f g → known' f g) : M.Watched g₀ known' s :=
  ⟨h.along, hknown _ _ h.along.good h.known⟩

/-- A load; it does not change the registers. -/
theorem didRead (h : M.Watched g₀ known s)
    (hread : ∀ g, M.good g → known s.file g →
      M.good (M.observe g (.read r (s.shown status r))) ∧
        known' s.file (M.observe g (.read r (s.shown status r)))) :
    M.Watched g₀ known' (s.didRead status r) := by
  obtain ⟨hgood, hknown⟩ := hread _ h.along.good h.known
  refine ⟨goodAlong_append h.along hgood, ?_⟩
  rw [StatusBus.didRead, after_append]
  exact hknown

theorem didWrite (h : M.Watched g₀ known s)
    (hwrite : ∀ g, M.good g → known s.file g →
      M.good (M.observe g (.write r (v % 2 ^ r.width))) ∧
        known' (s.file.store r v) (M.observe g (.write r (v % 2 ^ r.width)))) :
    M.Watched g₀ known' (s.didWrite r v) := by
  obtain ⟨hgood, hknown⟩ := hwrite _ h.along.good h.known
  refine ⟨goodAlong_append h.along hgood, ?_⟩
  rw [StatusBus.didWrite, after_append]
  exact hknown

end Watched

/-! The rules of the accesses.  A computation that hangs has left a good trace. -/

/-- The trace is good. -/
def Clean (M : BusMonitor γ) (g₀ : γ) (s : StatusBus) : Prop := M.GoodAlong g₀ s.events

/-- Every load keeps what is known. -/
def ReadKeeps (M : BusMonitor γ) (r : Reg) (known : RegFile → γ → Prop) : Prop :=
  ∀ f g v, M.good g → known f g →
    M.good (M.observe g (.read r v)) ∧ known f (M.observe g (.read r v))

section Rules

variable {cfg : BitbandConfig} {t : Regmask}

theorem store_triple (hwrite : ∀ f g, M.good g → known f g →
      M.good (M.observe g (.write r (v % 2 ^ r.width))) ∧
        known' (f.store r v) (M.observe g (.write r (v % 2 ^ r.width)))) :
    Waiting.Triple (M.Watched g₀ known)
      (Waiting.modify ((statusAccess status).store r v))
      (fun _ => M.Watched g₀ known') (M.Clean g₀) :=
  Waiting.Triple.modify fun s h => h.didWrite fun g hgood hknown => hwrite s.file g hgood hknown

/-- The rule of `set()` in terms of the file and the monitor. -/
theorem set_triple (hne : t.clearMask ≠ 0) (hread : M.ReadKeeps t.reg known)
    (hwrite : ∀ s g v, M.good g → known s.file g → Written status t s v →
      M.good (M.observe g (.write t.reg (v % 2 ^ t.reg.width))) ∧
        known' (s.file.store t.reg v) (M.observe g (.write t.reg (v % 2 ^ t.reg.width)))) :
    Waiting.Triple (M.Watched g₀ known) (setMask status cfg t)
      (fun _ => M.Watched g₀ known') (M.Clean g₀) :=
  setMask_triple hne
    (fun s h => h.didRead fun g hgood hknown => hread s.file g _ hgood hknown)
    fun s _ h hv => h.didWrite fun g hgood hknown => hwrite s g _ hgood hknown hv

/-- The rule of `clear()`. -/
theorem clear_triple (hne : t.clearMask ≠ 0) (hread : M.ReadKeeps t.reg known)
    (hwrite : ∀ s g v, M.good g → known s.file g → Written status t.cleared s v →
      M.good (M.observe g (.write t.reg (v % 2 ^ t.reg.width))) ∧
        known' (s.file.store t.reg v) (M.observe g (.write t.reg (v % 2 ^ t.reg.width)))) :
    Waiting.Triple (M.Watched g₀ known) (clearMask status cfg t)
      (fun _ => M.Watched g₀ known') (M.Clean g₀) :=
  clearMask_triple hne
    (fun s h => h.didRead fun g hgood hknown => hread s.file g _ hgood hknown)
    fun s _ h hv => h.didWrite fun g hgood hknown => hwrite s g _ hgood hknown hv

/-- The last load of a loop has shown the flag. -/
theorem poll_watched (hne : t.clearMask ≠ 0) (hread : M.ReadKeeps t.reg known)
    (hlast : ∀ s : StatusBus, ∀ g, M.good g → known s.file g →
      t.holds (s.shown status t.reg) = true →
      known' s.file (M.observe g (.read t.reg (s.shown status t.reg)))) :
    Waiting.Triple (M.Watched g₀ known) (poll status cfg t)
      (fun _ => M.Watched g₀ known') (M.Clean g₀) := by
  have hkeeps : ∀ s, M.Watched g₀ known s → M.Watched g₀ known (s.didRead status t.reg) :=
    fun s h => h.didRead fun g hgood hknown => hread s.file g _ hgood hknown
  refine Waiting.Triple.mono (poll_triple hne hkeeps) (fun s h => h) (fun _ s h => ?_)
    fun s h => h.along
  obtain ⟨s₀, h, hholds, rfl⟩ := h
  exact h.didRead fun g hgood hknown =>
    ⟨(hread s₀.file g _ hgood hknown).1, hlast s₀ g hgood hknown hholds⟩

end Rules

end BusMonitor

end OpenMptl
