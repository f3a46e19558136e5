/-
The simulated terminal.  `react()` starts a thread when its trigger is set, and
raises a flag when the trigger is cleared; a detached thread looks at the flag only at
the head of its loop.  The main thread and the detached ones are interleaved at the
stores to the flags, at the tests, the fifo accesses and the sleeps.
-/
import Mathlib.Data.UInt
import OpenMptl.Lockstep
import OpenMptl.RegReaction
import OpenMptl.RingBuffer

namespace OpenMptl

/-- The two kinds of threads of a terminal. -/
inductive Direction
  | rx
  | tx
deriving DecidableEq, Repr

/-- Where a detached thread is in its loop. -/
inductive ThreadPc
  | test
  | access
  | relax
  | terminated
deriving DecidableEq, Repr

/-- A terminate flag, and the threads that were started under it. -/
structure Detached where
  terminate : Bool
  threads : List ThreadPc

/-- What `react()` does, in single steps. -/
inductive ReactStep
  | info (str : String)
  | setTerminate (d : Direction) (value : Bool)
  | start (d : Direction)
deriving DecidableEq

/-- A step of the main program or of a thread, which may find a character on stdin. -/
inductive SimEvent
  | store (r : Reg) (value : Nat)
  | react
  | pop
  | push (c : UInt8)
  | pushs (src : Source UInt8)
  | reset
  | thread (d : Direction) (i : Nat) (input : Option UInt8)

/-- The simulated program, the terminal and what `react()` has left to do. -/
structure TerminalSim where
  regs : RegFile
  rxFifo : RingBuffer UInt8
  txFifo : RingBuffer UInt8
  stdout : List UInt8
  log : List String
  reacting : List ReactStep
  detached : Direction → Detached

namespace TerminalSim

variable {T : Target} (cfg : BitbandConfig) (size : Nat) (trigger : Direction → FieldType T)

def setDetached (s : TerminalSim) (d : Direction) (x : Detached) : TerminalSim :=
  { s with detached := Function.update s.detached d x }

/-- One half of `react()`. -/
def reactTo (d : Direction) (name : String) (bitsSet bitsCleared : Bool) : List ReactStep :=
  if bitsSet then
    [.info ("terminal: starting " ++ name ++ " thread"), .setTerminate d false, .start d]
  else if bitsCleared then
    [.info ("terminal: stopping " ++ name ++ " thread"), .setTerminate d true]
  else []

/-- `stdio_terminal::react()`; no thread touches the registers. -/
def react (reaction : RegReaction) (regs : RegFile) : List ReactStep :=
  reactTo .rx "RX" (reaction.bitsSet cfg (trigger .rx) (some regs)).1
      (reaction.bitsCleared cfg (trigger .rx) (some regs)).1 ++
    reactTo .tx "TX" (reaction.bitsSet cfg (trigger .tx) (some regs)).1
      (reaction.bitsCleared cfg (trigger .tx) (some regs)).1

def reactStep (s : TerminalSim) : TerminalSim :=
  match s.reacting with
  | [] => s
  | .info str :: rest => { s with log := s.log ++ [str], reacting := rest }
  | .setTerminate d value :: rest =>
      { s with reacting := rest }.setDetached d { s.detached d with terminate := value }
  | .start d :: rest =>
      { s with reacting := rest }.setDetached d
        { s.detached d with threads := (s.detached d).threads ++ [ThreadPc.test] }

/-- The body of the loop of `terminal_rx_thread()`, up to the sleep. -/
def rxAccess (s : TerminalSim) (input : Option UInt8) : ThreadPc × TerminalSim :=
  match input with
  | none => (.relax, s)
  | some c =>
      let c := if c = 10 then 13 else c
      (.relax, { s with rxFifo := (s.rxFifo.push size c).2 })

/-- One turn of the inner loop of `terminal_tx_thread()`. -/
def txAccess (s : TerminalSim) : ThreadPc × TerminalSim :=
  match s.txFifo.pop size with
  | (some c, fifo) => (.access, { s with txFifo := fifo, stdout := s.stdout ++ [c] })
  | (none, fifo) => (.relax, { s with txFifo := fifo })

def threadStep (s : TerminalSim) (d : Direction) (input : Option UInt8) :
    ThreadPc → ThreadPc × TerminalSim
  | .test => (if (s.detached d).terminate then .terminated else .access, s)
  | .access =>
      match d with
      | .rx => s.rxAccess size input
      | .tx => s.txAccess size
  | .relax => (.test, s)
  | .terminated => (.terminated, s)

/-- The main program waits for `react()` to return. -/
def mainStep (s : TerminalSim) (next : TerminalSim) : TerminalSim :=
  match s.reacting with
  | [] => next
  | _ :: _ => s

def step (s : TerminalSim) : SimEvent → TerminalSim
  | .store r value =>
      let stored := storeImpl r value s.regs
      s.mainStep { s with
        regs := stored.2
        reacting := react cfg trigger stored.1 stored.2 }
  | .react => s.reactStep
  | .pop => s.mainStep { s with rxFifo := (s.rxFifo.pop size).2 }
  | .push c => s.mainStep { s with txFifo := (s.txFifo.push size c).2 }
  | .pushs src => s.mainStep { s with txFifo := (s.txFifo.pushs size src).2 }
  | .reset => s.mainStep { s with txFifo := s.txFifo.reset, rxFifo := s.rxFifo.reset }
  | .thread d i input =>
      match (s.detached d).threads[i]? with
      | none => s
      | some pc =>
          let (pc, s) := s.threadStep size d input pc
          s.setDetached d { s.detached d with threads := (s.detached d).threads.set i pc }

/-- The thread is about to use its fifo. -/
def Accesses (s : TerminalSim) (d : Direction) (i : Nat) : Prop :=
  (s.detached d).threads[i]? = some .access

/-- A started thread uses its fifo in some continuation of the run. -/
def CanAccess (s : TerminalSim) (d : Direction) (i : Nat) : Prop :=
  i < (s.detached d).threads.length ∧
    ∃ events : List SimEvent, (events.foldl (step cfg size trigger) s).Accesses d i

/-- Each fifo has one producer and one consumer at most. -/
def Exclusive (s : TerminalSim) : Prop :=
  ∀ d i j, s.CanAccess cfg size trigger d i → s.CanAccess cfg size trigger d j → i = j

/-- Before the first store. -/
def initial (regs : RegFile) (rxFifo txFifo : RingBuffer UInt8) : TerminalSim where
  regs := regs
  rxFifo := rxFifo
  txFifo := txFifo
  stdout := []
  log := []
  reacting := []
  detached := fun _ => ⟨false, []⟩

/-- When a thread starts, those started before have found their flag raised. -/
def StartsAlone (s : TerminalSim) : SimEvent → Prop
  | .react => ∀ d rest, s.reacting = .start d :: rest →
      ∀ pc ∈ (s.detached d).threads, pc = .terminated
  | _ => True

/-- The thread is still in its loop. -/
def Alive (s : TerminalSim) (d : Direction) (i : Nat) : Prop :=
  ∃ pc, (s.detached d).threads[i]? = some pc ∧ pc ≠ .terminated

/-! What one step can do to the threads. -/

section Step

variable (s : TerminalSim)

@[simp] theorem setDetached_self (d : Direction) (x : Detached) :
    (s.setDetached d x).detached d = x := by
  simp [setDetached]

@[simp] theorem setDetached_of_ne {d e : Direction} (h : e ≠ d) (x : Detached) :
    (s.setDetached d x).detached e = s.detached e := by
  simp [setDetached, h]

@[simp] theorem setDetached_reacting (d : Direction) (x : Detached) :
    (s.setDetached d x).reacting = s.reacting := rfl

@[simp] theorem setDetached_regs (d : Direction) (x : Detached) :
    (s.setDetached d x).regs = s.regs := rfl

/-- A fifo access changes the fifos and the output. -/
theorem threadStep_frame (d : Direction) (input : Option UInt8) (pc : ThreadPc) :
    (s.threadStep size d input pc).2.detached = s.detached ∧
      (s.threadStep size d input pc).2.reacting = s.reacting := by
  cases pc with
  | test | relax | terminated => exact ⟨rfl, rfl⟩
  | access =>
      cases d with
      | rx => cases input <;> exact ⟨rfl, rfl⟩
      | tx =>
          simp only [threadStep, txAccess]
          split <;> exact ⟨rfl, rfl⟩

theorem mainStep_threads {next : TerminalSim} (h : next.detached = s.detached)
    (d : Direction) : ((s.mainStep next).detached d).threads = (s.detached d).threads := by
  unfold mainStep
  split
  · rw [h]
  · rfl

theorem step_thread {d : Direction} {i : Nat} {pc : ThreadPc} (input : Option UInt8)
    (h : (s.detached d).threads[i]? = some pc) :
    (step cfg size trigger s (.thread d i input)).detached =
      Function.update s.detached d { s.detached d with
        threads := (s.detached d).threads.set i (s.threadStep size d input pc).1 } := by
  have hframe := (s.threadStep_frame size d input pc).1
  simp only [step, h, setDetached, hframe]

/-- The threads of a direction stay, or one more starts, or one takes a step. -/
theorem step_threads (event : SimEvent) (d : Direction) :
    ((step cfg size trigger s event).detached d).threads = (s.detached d).threads ∨
    (event = .react ∧ (∃ rest, s.reacting = .start d :: rest) ∧
      ((step cfg size trigger s event).detached d).threads =
        (s.detached d).threads ++ [ThreadPc.test]) ∨
    ∃ i input pc, event = .thread d i input ∧ (s.detached d).threads[i]? = some pc ∧
      ((step cfg size trigger s event).detached d).threads =
        (s.detached d).threads.set i (s.threadStep size d input pc).1 := by
  cases event with
  | store r value => exact .inl (s.mainStep_threads (by rfl) d)
  | pop => exact .inl (s.mainStep_threads (by rfl) d)
  | push c => exact .inl (s.mainStep_threads (by rfl) d)
  | pushs src => exact .inl (s.mainStep_threads (by rfl) d)
  | reset => exact .inl (s.mainStep_threads (by rfl) d)
  | react =>
      rw [step, reactStep]
      split
      · exact .inl rfl
      · exact .inl rfl
      · next e value rest _ =>
          left
          by_cases he : d = e
          · subst he
            rw [setDetached_self]
          · rw [setDetached_of_ne _ he]
      · next e rest hreacting =>
          by_cases he : d = e
          · subst he
            exact .inr (.inl ⟨rfl, ⟨rest, hreacting⟩, by rw [setDetached_self]⟩)
          · exact .inl (by rw [setDetached_of_ne _ he])
  | thread e i input =>
      cases hpc : (s.detached e).threads[i]? with
      | none => exact .inl (by rw [step, hpc])
      | some pc =>
          rw [s.step_thread cfg size trigger input hpc]
          by_cases he : d = e
          · subst he
            exact .inr (.inr ⟨i, input, pc, rfl, hpc, by rw [Function.update_self]⟩)
          · exact .inl (by rw [Function.update_of_ne he])

theorem length_le_step (event : SimEvent) (d : Direction) :
    (s.detached d).threads.length ≤
      ((step cfg size trigger s event).detached d).threads.length := by
  rcases s.step_threads cfg size trigger event d with
    hsame | ⟨-, -, hstart⟩ | ⟨_, _, _, -, -, hset⟩
  · rw [hsame]
  · rw [hstart, List.length_append]
    exact Nat.le_add_right _ _
  · rw [hset, List.length_set]

variable {s}

/-- A thread that is in its loop after a step was there before, or has just started. -/
theorem alive_of_step {event : SimEvent} {d : Direction} {i : Nat}
    (h : (step cfg size trigger s event).Alive d i) :
    s.Alive d i ∨ (event = .react ∧ (∃ rest, s.reacting = .start d :: rest) ∧
      i = (s.detached d).threads.length) := by
  obtain ⟨pc, hpc, halive⟩ := h
  rcases s.step_threads cfg size trigger event d with
    hsame | ⟨hreact, hrest, hstart⟩ | ⟨j, input, old, -, hold, hset⟩
  · rw [hsame] at hpc
    exact .inl ⟨pc, hpc, halive⟩
  · rcases lt_trichotomy i (s.detached d).threads.length with hlt | heq | hgt
    · rw [hstart, List.getElem?_append_left hlt] at hpc
      exact .inl ⟨pc, hpc, halive⟩
    · exact .inr ⟨hreact, hrest, heq⟩
    · rw [hstart, List.getElem?_eq_none (by simpa using Nat.succ_le_of_lt hgt)] at hpc
      cases hpc
  · by_cases hij : j = i
    · subst hij
      refine .inl ⟨old, hold, ?_⟩
      rintro rfl
      rw [hset, List.getElem?_set_self' , hold] at hpc
      cases hpc
      exact halive rfl
    · rw [hset, List.getElem?_set_ne hij] at hpc
      exact .inl ⟨pc, hpc, halive⟩

/-- A thread that will use its fifo is still in its loop. -/
theorem alive_of_canAccess {d : Direction} {i : Nat}
    (h : s.CanAccess cfg size trigger d i) : s.Alive d i := by
  obtain ⟨hlt, events, haccess⟩ := h
  induction events generalizing s with
  | nil => exact ⟨.access, haccess, ThreadPc.noConfusion⟩
  | cons event events ih =>
      have halive := ih (hlt.trans_le (s.length_le_step cfg size trigger event d)) haccess
      rcases alive_of_step cfg size trigger halive with hold | ⟨-, -, rfl⟩
      · exact hold
      · exact absurd hlt (lt_irrefl _)

end Step

/-! A thread in its loop gets to its fifo once its trigger has been set again. -/

section Restart

variable {s t u : TerminalSim}

/-- Some content of the register shows the trigger set. -/
def CanTrigger (d : Direction) : Prop := ∃ f, (trigger d).test cfg f = true

/-- A run that does not move the threads leads from one state to the other. -/
def Leads (s t : TerminalSim) : Prop :=
  (∃ events : List SimEvent, events.foldl (step cfg size trigger) s = t) ∧
    ∀ d, (s.detached d).threads <+: (t.detached d).threads

variable {cfg size trigger}

theorem Leads.trans (h : Leads cfg size trigger s t) (h' : Leads cfg size trigger t u) :
    Leads cfg size trigger s u := by
  obtain ⟨⟨events, rfl⟩, hthreads⟩ := h
  obtain ⟨⟨rest, rfl⟩, hthreads'⟩ := h'
  exact ⟨⟨events ++ rest, List.foldl_append⟩, fun d => (hthreads d).trans (hthreads' d)⟩

variable (cfg size trigger)

/-- A step of the main thread. -/
theorem leads_step (s : TerminalSim) (event : SimEvent)
    (h : ∀ d i input, event ≠ .thread d i input) :
    Leads cfg size trigger s (step cfg size trigger s event) := by
  refine ⟨⟨[event], rfl⟩, fun d => ?_⟩
  rcases s.step_threads cfg size trigger event d with
    hsame | ⟨-, -, hstart⟩ | ⟨i, input, _, hthread, -, -⟩
  · exact hsame ▸ List.prefix_rfl
  · exact hstart ▸ List.prefix_append _ _
  · exact absurd hthread (h d i input)

theorem reactStep_frame (s : TerminalSim) :
    s.reactStep.regs = s.regs ∧ s.reactStep.reacting = s.reacting.tail := by
  rw [reactStep]
  split <;> simp_all

/-- `react()` gets to its last steps. -/
theorem leads_react {todo rest : List ReactStep} (h : s.reacting = todo ++ rest) :
    ∃ t, Leads cfg size trigger s t ∧ t.reacting = rest ∧ t.regs = s.regs := by
  induction todo generalizing s with
  | nil => exact ⟨s, ⟨⟨[], rfl⟩, fun d => List.prefix_rfl⟩, h, rfl⟩
  | cons first todo ih =>
      obtain ⟨hregs, htail⟩ := s.reactStep_frame
      obtain ⟨t, hleads, hreacting, hsame⟩ := ih (s := s.reactStep) (by rw [htail, h]; rfl)
      have hstep := s.leads_step cfg size trigger .react (by simp)
      exact ⟨t, hstep.trans hleads, hreacting, hsame.trans hregs⟩

/-- A store from rest. -/
theorem leads_store (r : Reg) (value : Nat) :
    ∃ t, Leads cfg size trigger s t ∧ t.regs = s.regs.store r value ∧
      t.reacting = react cfg trigger (storeImpl r value s.regs).1 (s.regs.store r value) := by
  obtain ⟨t, hleads, hreacting, hregs⟩ :=
    leads_react cfg size trigger (List.append_nil s.reacting).symm
  have hstep := t.leads_step cfg size trigger (.store r value) (by simp)
  refine ⟨_, hleads.trans hstep, ?_, ?_⟩
  · simp only [step, mainStep, hreacting, storeImpl, hregs]
  · simp only [step, mainStep, hreacting, storeImpl, hregs]

variable {cfg trigger}

theorem mem_reactTo {d e : Direction} {name : String} {bitsSet bitsCleared : Bool}
    (h : .start e ∈ reactTo d name bitsSet bitsCleared) : e = d ∧ bitsSet = true := by
  cases bitsSet with
  | true => exact ⟨by simpa [reactTo] using h, rfl⟩
  | false => cases bitsCleared <;> simp [reactTo] at h

/-- A thread starts for a trigger that was found set. -/
theorem canTrigger_of_mem_react {d : Direction} {reaction : RegReaction} {regs : RegFile}
    (h : .start d ∈ react cfg trigger reaction regs) : CanTrigger cfg trigger d := by
  have hset : (reaction.bitsSet cfg (trigger d) (some regs)).1 = true := by
    rcases List.mem_append.mp h with hrx | htx
    · obtain ⟨rfl, hset⟩ := mem_reactTo hrx
      exact hset
    · obtain ⟨rfl, hset⟩ := mem_reactTo htx
      exact hset
  refine ⟨regs, ?_⟩
  by_cases haddr : (trigger d).toRegmask.reg.addr = reaction.addr
  · rw [RegReaction.bitsSet_eq cfg haddr, Bool.and_eq_true] at hset
    exact hset.1
  · rw [RegReaction.bitsSet, if_pos haddr] at hset
    cases hset

theorem react_of_bitsSet {d : Direction} {reaction : RegReaction} {regs : RegFile}
    (h : (reaction.bitsSet cfg (trigger d) (some regs)).1 = true) :
    ∃ todo rest, react cfg trigger reaction regs = todo ++ .setTerminate d false :: rest := by
  cases d with
  | rx => exact ⟨[_], _, by rw [react, h, reactTo, if_pos rfl]; rfl⟩
  | tx =>
      rw [react, h]
      generalize reactTo .rx _ _ _ = first
      exact ⟨first ++ [_], _, by rw [reactTo, if_pos rfl, List.append_assoc]; rfl⟩

/-- Storing 0 and then the triggering content lowers the flag. -/
theorem exists_leads_lowered {d : Direction} (h : CanTrigger cfg trigger d) :
    ∃ t, Leads cfg size trigger s t ∧ (t.detached d).terminate = false := by
  obtain ⟨f, htest⟩ := h
  let r := (trigger d).toRegmask.reg
  obtain ⟨t, hleads, hcleared, -⟩ := leads_store (s := s) cfg size trigger r 0
  obtain ⟨u, hleads', hregs, hreacting⟩ := leads_store (s := t) cfg size trigger r (f.value r)
  have hset : ((storeImpl r (f.value r) t.regs).1.bitsSet cfg (trigger d)
      (some (t.regs.store r (f.value r)))).1 = true := by
    have hcontent : f.value r = (t.regs.store r (f.value r)).value r :=
      (t.regs.store_value_of_lt r (f.value_lt r)).symm
    have hold : t.regs.value r = 0 := by rw [hcleared, RegFile.store_value_self, Nat.zero_mod]
    rw [RegReaction.bitsSet_eq cfg rfl, Bool.and_eq_true]
    refine ⟨((trigger d).test_congr cfg hcontent).symm.trans htest, ?_⟩
    simp only [storeImpl, hold, Nat.zero_mod, Nat.zero_and, decide_true]
  obtain ⟨todo, rest, hreact⟩ := react_of_bitsSet hset
  obtain ⟨v, hleads'', hlast, -⟩ := leads_react cfg size trigger (hreacting.trans hreact)
  have hstep := v.leads_step cfg size trigger .react (by simp)
  refine ⟨_, ((hleads.trans hleads').trans hleads'').trans hstep, ?_⟩
  simp only [step, reactStep, hlast, setDetached_self]

variable (cfg trigger)

/-- A thread whose flag is lowered gets to its fifo. -/
theorem exists_accesses {d : Direction} {i : Nat} {pc : ThreadPc}
    (hflag : (s.detached d).terminate = false) (hpc : (s.detached d).threads[i]? = some pc)
    (halive : pc ≠ .terminated) :
    ∃ events : List SimEvent, (events.foldl (step cfg size trigger) s).Accesses d i := by
  have hlt := (List.getElem?_eq_some_iff.mp hpc).1
  have htested : ∀ t : TerminalSim, (t.detached d).terminate = false →
      (t.detached d).threads[i]? = some .test →
      (step cfg size trigger t (.thread d i none)).Accesses d i := by
    intro t hlow htest
    have hlt := (List.getElem?_eq_some_iff.mp htest).1
    rw [Accesses, t.step_thread cfg size trigger none htest, Function.update_self, threadStep,
      hlow]
    exact List.getElem?_set_self hlt
  cases pc with
  | test => exact ⟨[.thread d i none], htested s hflag hpc⟩
  | access => exact ⟨[], hpc⟩
  | relax =>
      have hdetached := s.step_thread cfg size trigger none hpc
      refine ⟨[.thread d i none, .thread d i none], htested _ ?_ ?_⟩
      · rw [hdetached, Function.update_self]
        exact hflag
      · rw [hdetached, Function.update_self]
        exact List.getElem?_set_self hlt
  | terminated => exact absurd rfl halive

variable {cfg trigger}

theorem canAccess_of_alive {d : Direction} {i : Nat} (h : CanTrigger cfg trigger d)
    (halive : s.Alive d i) : s.CanAccess cfg size trigger d i := by
  obtain ⟨pc, hpc, hne⟩ := halive
  obtain ⟨_, ⟨⟨events, rfl⟩, hthreads⟩, hflag⟩ := exists_leads_lowered size (s := s) h
  have hlt := (List.getElem?_eq_some_iff.mp hpc).1
  have hpc' := List.prefix_iff_getElem?.mp (hthreads d) i hlt
  obtain ⟨rest, haccess⟩ := exists_accesses cfg size trigger hflag
    (hpc'.trans ((List.getElem?_eq_getElem hlt).symm.trans hpc)) hne
  exact ⟨hlt, events ++ rest, List.foldl_append ▸ haccess⟩

end Restart

/-! Whole runs. -/

/-- Threads have started, or are about to, for a trigger that can be set. -/
def Inv (s : TerminalSim) : Prop :=
  ∀ d, (0 < (s.detached d).threads.length ∨ .start d ∈ s.reacting) → CanTrigger cfg trigger d

variable {cfg size trigger} {s : TerminalSim}

theorem inv_initial (regs : RegFile) (rxFifo txFifo : RingBuffer UInt8) :
    (initial regs rxFifo txFifo).Inv cfg trigger := by
  rintro d (hthread | hstart)
  · exact absurd hthread (lt_irrefl 0)
  · cases hstart

theorem mem_mainStep_reacting {next : TerminalSim} {x : ReactStep}
    (h : x ∈ (s.mainStep next).reacting) (hnext : next.reacting = s.reacting) :
    x ∈ s.reacting := by
  unfold mainStep at h
  split at h
  · exact hnext ▸ h
  · exact h

theorem mem_step_reacting {event : SimEvent} {d : Direction}
    (h : .start d ∈ (step cfg size trigger s event).reacting) :
    .start d ∈ s.reacting ∨ CanTrigger cfg trigger d := by
  cases event with
  | store r value =>
      simp only [step, mainStep] at h
      split at h
      · exact .inr (canTrigger_of_mem_react h)
      · exact .inl h
  | react =>
      rw [step, s.reactStep_frame.2] at h
      exact .inl (List.mem_of_mem_tail h)
  | pop => exact .inl (mem_mainStep_reacting h rfl)
  | push c => exact .inl (mem_mainStep_reacting h rfl)
  | pushs src => exact .inl (mem_mainStep_reacting h rfl)
  | reset => exact .inl (mem_mainStep_reacting h rfl)
  | thread e i input =>
      left
      rw [step] at h
      split at h
      · exact h
      · exact (s.threadStep_frame size e input _).2 ▸ h

theorem inv_step (event : SimEvent) (h : s.Inv cfg trigger) :
    (step cfg size trigger s event).Inv cfg trigger := by
  rintro d (hthread | hstart)
  · rcases s.step_threads cfg size trigger event d with
      hsame | ⟨-, ⟨rest, hreacting⟩, -⟩ | ⟨_, _, _, -, -, hset⟩
    · exact h d (.inl (by rwa [hsame] at hthread))
    · exact h d (.inr (by rw [hreacting]; exact List.mem_cons_self))
    · exact h d (.inl (by rwa [hset, List.length_set] at hthread))
  · rcases mem_step_reacting hstart with hold | hnew
    · exact h d (.inr hold)
    · exact hnew

theorem Alive.pos {d : Direction} {i : Nat} (h : s.Alive d i) :
    0 < (s.detached d).threads.length := by
  obtain ⟨pc, hpc, -⟩ := h
  exact (Nat.zero_le i).trans_lt (List.getElem?_eq_some_iff.mp hpc).1

/-- A thread can use its fifo as long as it is in its loop. -/
theorem canAccess_iff (h : s.Inv cfg trigger) (d : Direction) (i : Nat) :
    s.CanAccess cfg size trigger d i ↔ s.Alive d i :=
  ⟨alive_of_canAccess cfg size trigger,
    fun halive => canAccess_of_alive size (h d (.inl halive.pos)) halive⟩

theorem exclusive_iff (h : s.Inv cfg trigger) :
    s.Exclusive cfg size trigger ↔ ∀ d i j, s.Alive d i → s.Alive d j → i = j := by
  simp only [Exclusive, canAccess_iff h]

theorem threads_start {d : Direction} {rest : List ReactStep}
    (h : s.reacting = .start d :: rest) :
    ((step cfg size trigger s .react).detached d).threads =
      (s.detached d).threads ++ [ThreadPc.test] := by
  rw [step, reactStep, h]
  simp only [setDetached_self]

theorem StartsAlone.not_alive {event : SimEvent} (h : s.StartsAlone event) {d : Direction}
    {rest : List ReactStep} (hreact : event = .react) (hreacting : s.reacting = .start d :: rest)
    (i : Nat) : ¬ s.Alive d i := by
  subst hreact
  rintro ⟨pc, hpc, halive⟩
  exact halive (h d rest hreacting pc (List.mem_of_getElem? hpc))

/-- A step ends the exclusiveness when it starts a thread beside a living one. -/
theorem exclusive_step_iff {event : SimEvent} (h : s.Inv cfg trigger)
    (hexclusive : s.Exclusive cfg size trigger) :
    (step cfg size trigger s event).Exclusive cfg size trigger ↔ s.StartsAlone event := by
  rw [exclusive_iff (inv_step event h)]
  rw [exclusive_iff h] at hexclusive
  constructor
  · intro hnext
    cases event with
    | react =>
        intro d rest hreacting pc hmem
        by_contra halive
        obtain ⟨i, hi⟩ := List.getElem?_of_mem hmem
        have hlt := (List.getElem?_eq_some_iff.mp hi).1
        have hthreads : ((step cfg size trigger s .react).detached d).threads = _ :=
          threads_start hreacting
        have hold : (step cfg size trigger s .react).Alive d i :=
          ⟨pc, by rw [hthreads, List.getElem?_append_left hlt, hi], halive⟩
        have hnew : (step cfg size trigger s .react).Alive d (s.detached d).threads.length :=
          ⟨.test, by rw [hthreads, List.getElem?_concat_length], ThreadPc.noConfusion⟩
        exact absurd (hnext d i _ hold hnew) hlt.ne
    | store | pop | push | pushs | reset | thread => trivial
  · intro halone d i j hi hj
    rcases alive_of_step cfg size trigger hi with hi | ⟨hreact, ⟨rest, hreacting⟩, rfl⟩
    · rcases alive_of_step cfg size trigger hj with hj | ⟨hreact, ⟨rest, hreacting⟩, rfl⟩
      · exact hexclusive d i j hi hj
      · exact absurd hi (halone.not_alive hreact hreacting i)
    · rcases alive_of_step cfg size trigger hj with hj | ⟨-, -, rfl⟩
      · exact absurd hj (halone.not_alive hreact hreacting j)
      · rfl

/-- Exclusiveness throughout a run, with the invariant beside it. -/
theorem relatedAlong_iff (events : List SimEvent) (h : s.Inv cfg trigger) :
    Lockstep.RelatedAlong (step cfg size trigger) (fun u _ => u)
        (fun s (_ : Unit) => s.Inv cfg trigger ∧ s.Exclusive cfg size trigger) s () events ↔
      ∀ done, done <+: events →
        (done.foldl (step cfg size trigger) s).Exclusive cfg size trigger := by
  have hinv : ∀ done : List SimEvent,
      (done.foldl (step cfg size trigger) s).Inv cfg trigger := by
    intro done
    induction done using List.reverseRecOn with
    | nil => exact h
    | append_singleton done event ih =>
        rw [List.foldl_append]
        exact inv_step event ih
  constructor
  · intro hrelated done hdone
    exact (hrelated done hdone).2
  · intro hexclusive done hdone
    exact ⟨hinv done, hexclusive done hdone⟩

end TerminalSim

/-- There is at most one producer and one consumer throughout a run exactly when
every thread starts after the end of those before it. -/
theorem stdioTerminal_exclusive_iff {T : Target} (cfg : BitbandConfig) (size : Nat)
    (trigger : Direction → FieldType T) (regs : RegFile) (rxFifo txFifo : RingBuffer UInt8)
    (events : List SimEvent) :
    (∀ done, done <+: events →
      (done.foldl (TerminalSim.step cfg size trigger)
        (TerminalSim.initial regs rxFifo txFifo)).Exclusive cfg size trigger) ↔
      Lockstep.GoodAlong (TerminalSim.step cfg size trigger) TerminalSim.StartsAlone
        (TerminalSim.initial regs rxFifo txFifo) events := by
  have hinv : (TerminalSim.initial regs rxFifo txFifo).Inv cfg trigger :=
    TerminalSim.inv_initial regs rxFifo txFifo
  have hexclusive :
      (TerminalSim.initial regs rxFifo txFifo).Exclusive cfg size trigger := by
    rw [TerminalSim.exclusive_iff hinv]
    intro d i j hi _
    exact absurd hi.pos (lt_irrefl 0)
  rw [← TerminalSim.relatedAlong_iff events hinv]
  apply Lockstep.relatedAlong_iff_goodAlong
  · rintro s - event ⟨hinv, hexclusive⟩
    rw [and_iff_right (TerminalSim.inv_step event hinv)]
    exact TerminalSim.exclusive_step_iff hinv hexclusive
  · exact ⟨hinv, hexclusive⟩

namespace TerminalSimTest

open TerminalSim

/-- The host of the simulation. -/
def host : Target := ⟨64, Nat.le_of_ble_eq_true rfl, .uint64, Nat.le_of_ble_eq_true rfl⟩

/-- `USART<2>::CR1` -/
def cr1 : Reg := ⟨host.fast16, 0x4000440c, .rw, 0, Nat.two_pow_pos _⟩

/-- `CR1::RXNEIE` and `CR1::TXEIE` -/
def trigger : Direction → FieldType host
  | .rx => .regbits ⟨cr1, 5, 1, by decide, by decide, by decide, by decide⟩
  | .tx => .regbits ⟨cr1, 7, 1, by decide, by decide, by decide, by decide⟩

def reset : TerminalSim :=
  initial ⟨fun _ => 0, Reg.two_pow_width_pos⟩ ⟨0, 0, fun _ => 0⟩ ⟨0, 0, fun _ => 0⟩

/-- The thread sleeps while RXNEIE is cleared and set again. -/
def restart : List SimEvent :=
  [.store cr1 0x20, .react, .react, .react, .thread .rx 0 none, .thread .rx 0 none,
    .store cr1 0, .react, .react, .store cr1 0x20, .react, .react, .react,
    .thread .rx 0 none, .thread .rx 0 none, .thread .rx 1 none]

/-- Two threads are about to push to one fifo. -/
theorem stdioTerminal_two_producers :
    ¬ (restart.foldl (step .automatic 512 trigger) reset).Exclusive .automatic 512 trigger := by
  intro h
  have hboth := h .rx 0 1 ⟨by decide, [], by unfold Accesses; decide⟩
    ⟨by decide, [], by unfold Accesses; decide⟩
  exact absurd hboth (by decide)

end TerminalSimTest

end OpenMptl
