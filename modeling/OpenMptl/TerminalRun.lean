/-
Runs of the terminal.  The bytes that `process_input()` has taken determine the
terminal, however they were spread over calls and interrupts, and say whether every
access to the buffer has been inside it.
-/
import OpenMptl.RingBufferSafety
import OpenMptl.TerminalLines

namespace OpenMptl

universe u

namespace TerminalDevice

open Terminal

variable {size : Nat} {echo : Bool} {s t : TerminalDevice}

/-- Until it has left the buffer, the terminal holds what it has taken. -/
def MainConsistent (echo : Bool) (s : TerminalDevice) : Prop :=
  match s.main with
  | .idle | .loop _ => s.terminal.Holds echo s.rxFifo.popped ∧ LinesFit s.rxFifo.popped
  | .outOfBounds index => index = cmdBufSize ∧ ¬ LinesFit s.rxFifo.popped

structure Inv (size : Nat) (echo : Bool) (s : TerminalDevice) : Prop where
  rx : s.rxFifo.Inv size
  producer : s.rxFifo.producer = .idle
  main : s.MainConsistent echo

theorem Inv.of_initial (hsize : 0 < size) (h : s.Initial) : s.Inv size echo := by
  obtain ⟨hindex, hcalls, hrx, hmain⟩ := h
  have hinv := Channel.Inv.of_initial hsize hrx
  obtain ⟨ring, hrx⟩ := hrx
  exact {
    rx := hinv
    producer := by rw [hrx]
    main := by
      simp only [MainConsistent, hmain, hrx]
      exact ⟨Holds.nil hindex hcalls, by simp [LinesFit]⟩ }

theorem Inv.mainStep (hsize : 0 < size) (hlt : size < 2 ^ 32) (h : s.Inv size echo) :
    (s.mainStep size echo).Inv size echo := by
  have hmain := h.main
  have hrx := h.rx.consumerStep hsize hlt
  have hproducer : (s.rxFifo.consumerStep size).producer = .idle :=
    (s.rxFifo.consumerStep_producer size).1.trans h.producer
  have hpopped := s.rxFifo.consumerStep_popped size
  simp only [MainConsistent] at hmain
  unfold TerminalDevice.mainStep
  split
  case h_1 => exact h
  case h_2 hpc =>
      simp only [hpc] at hmain
      exact { h with main := hmain }
  case h_3 flushTx hpc =>
      simp only [hpc] at hmain
      obtain ⟨hholds, hfit⟩ := hmain
      split
      case h_1 hresult =>
          simp only [hresult, Option.join_none, Option.toList_none, List.append_nil] at hpopped
          exact ⟨hrx, hproducer, by
            simp only [MainConsistent, hpc, hpopped]
            exact ⟨hholds, hfit⟩⟩
      case h_2 hresult =>
          simp only [hresult, Option.join_some, Option.toList_none, List.append_nil] at hpopped
          exact ⟨hrx, hproducer, by
            simp only [MainConsistent, hpopped]
            exact ⟨hholds.flush flushTx, hfit⟩⟩
      case h_3 c hresult =>
          simp only [hresult, Option.join_some, Option.toList_some] at hpopped
          rcases hholds.processChar hfit c with ⟨t', ht', hholds', hfit'⟩ | ⟨herror, hfit'⟩
          · simp only [ht']
            exact ⟨hrx, hproducer, by
              simp only [MainConsistent, hpopped]
              exact ⟨hholds', hfit'⟩⟩
          · simp only [herror]
            exact ⟨hrx, hproducer, by
              simp only [MainConsistent, hpopped]
              exact ⟨trivial, hfit'⟩⟩

theorem Inv.isrReceive (hsize : 0 < size) (hlt : size < 2 ^ 32) (h : s.Inv size echo)
    (c : UInt8) : (s.isrReceive size c).Inv size echo where
  rx := h.rx.run hsize hlt (Channel.atomicPush_run h.producer c)
  producer := h.producer
  main := h.main

theorem reopen_initial (s : TerminalDevice) : s.reopen.Initial :=
  ⟨rfl, rfl, ⟨s.rxFifo.ring, rfl⟩, rfl⟩

theorem inv_of_reachable (hsize : 0 < size) (hlt : size < 2 ^ 32)
    (h : Reachable Initial (Step size echo) s) : s.Inv size echo := by
  refine h.invariant (fun s hs => Inv.of_initial hsize hs) ?_
  intro s t hs hstep
  cases hstep with
  | main => exact hs.mainStep hsize hlt
  | isr c => exact hs.isrReceive hsize hlt c
  | reopen => exact Inv.of_initial hsize s.reopen_initial

theorem Inv.holds (h : s.Inv size echo) (hfit : LinesFit s.rxFifo.popped) :
    s.terminal.Holds echo s.rxFifo.popped := by
  have hmain := h.main
  simp only [MainConsistent] at hmain
  cases hpc : s.main <;> simp only [hpc] at hmain
  case outOfBounds => exact absurd hfit hmain.2
  all_goals exact hmain.1

/-- In bounds so far means: no line that has been taken was too long. -/
theorem Inv.inBounds_iff (h : s.Inv size echo) :
    s.InBounds ↔ LinesFit s.rxFifo.popped := by
  have hmain := h.main
  simp only [MainConsistent] at hmain
  cases hpc : s.main <;> simp only [hpc] at hmain <;>
    simp [InBounds, hpc, hmain.2]

theorem mainStep_of_popResult_none {terminal : Terminal} {rxFifo : Channel UInt8}
    {flushTx : Bool} (h : rxFifo.popResult = none) :
    mainStep size echo ⟨terminal, rxFifo, .loop flushTx⟩ =
      ⟨terminal, rxFifo.consumerStep size, .loop flushTx⟩ := by
  simp only [TerminalDevice.mainStep, h]

theorem step_of_popResult_none {terminal : Terminal} {rxFifo : Channel UInt8} {flushTx : Bool}
    (h : rxFifo.popResult = none) :
    Step size echo ⟨terminal, rxFifo, .loop flushTx⟩
      ⟨terminal, rxFifo.consumerStep size, .loop flushTx⟩ :=
  mainStep_of_popResult_none h ▸ Step.main _

/-- All of the input has been taken, and the next `pop()` is about to begin. -/
structure Ready (input : List UInt8) (s : TerminalDevice) : Prop where
  main : ∃ flushTx, s.main = .loop flushTx
  consumer : s.rxFifo.consumer = .idle
  accepted : s.rxFifo.accepted = input
  popped : s.rxFifo.popped = input

/-- One more byte comes in and is taken. -/
theorem Ready.take (hsize : 2 ≤ size) (hlt : size < 2 ^ 32) (hinv : s.Inv size echo)
    {input : List UInt8} (h : s.Ready input) (c : UInt8) :
    ∃ t, Relation.ReflTransGen (Step size echo) s t ∧ t.rxFifo.popped = input ++ [c] ∧
      (t.Ready (input ++ [c]) ∨ ∃ index, t.main = .outOfBounds index) := by
  obtain ⟨flushTx, hmain⟩ := h.main
  have hpushed := hinv.rx.atomicPush_accepted hlt (by rw [h.accepted, h.popped]; omega) c
  have hheld : (s.rxFifo.atomicPush size c).accepted =
      (s.rxFifo.atomicPush size c).popped ++ [c] := by
    rw [hpushed, h.accepted]
    exact congrArg (· ++ [c]) h.popped.symm
  obtain ⟨h₁, h₂, h₃, h₄, hconsumer, haccepted, hpopped⟩ :=
    (hinv.isrReceive (by omega) hlt c).rx.pop_next h.consumer hheld
  have hinput : (s.rxFifo.atomicPush size c).popped = input := h.popped
  change _ = (s.rxFifo.atomicPush size c).accepted at haccepted
  change _ = (s.rxFifo.atomicPush size c).popped ++ [c] at hpopped
  rw [hpushed, h.accepted] at haccepted
  rw [hinput] at hpopped
  obtain ⟨terminal, rxFifo, main⟩ := s
  obtain rfl : main = .loop flushTx := hmain
  have hreceive : Relation.ReflTransGen (Step size echo) ⟨terminal, rxFifo, .loop flushTx⟩
      ⟨terminal, rxFifo.atomicPush size c, .loop flushTx⟩ := .single (.isr c _)
  have hread := ((hreceive.tail (step_of_popResult_none h₁)).tail
    (step_of_popResult_none h₂)).tail (step_of_popResult_none h₃)
  refine ⟨_, hread.tail (.main _), ?_⟩
  simp only [TerminalDevice.mainStep, isrReceive] at h₄ ⊢
  rw [h₄]
  dsimp only
  split
  · exact ⟨hpopped, .inr ⟨_, rfl⟩⟩
  · exact ⟨hpopped, .inl ⟨⟨true, rfl⟩, hconsumer, haccepted, hpopped⟩⟩

/-- Every input whose lines fit can be taken. -/
theorem exists_ready (hsize : 2 ≤ size) (hlt : size < 2 ^ 32) {s₀ : TerminalDevice}
    (h₀ : s₀.Initial) (input : List UInt8) (hfit : LinesFit input) :
    ∃ s, Reachable Initial (Step size echo) s ∧ s.Ready input := by
  induction input using List.reverseRecOn with
  | nil =>
      have hstart : Reachable Initial (Step size echo) s₀ := .start h₀
      obtain ⟨-, -, ⟨ring, hrx⟩, hmain⟩ := h₀
      refine ⟨_, hstart.next (.main s₀), ?_⟩
      simp only [TerminalDevice.mainStep, hmain, hrx]
      exact ⟨⟨false, rfl⟩, rfl, rfl, rfl⟩
  | append_singleton input c ih =>
      obtain ⟨s, hs, hready⟩ := ih (hfit.of_append [c])
      obtain ⟨t, hrun, hpopped, hnext⟩ :=
        hready.take hsize hlt (inv_of_reachable (by omega) hlt hs) c
      have ht := hs.run hrun
      refine ⟨t, ht, hnext.resolve_right ?_⟩
      rintro ⟨index, hindex⟩
      have hinv := inv_of_reachable (by omega) hlt ht
      exact hinv.inBounds_iff.mpr (hpopped ▸ hfit) index hindex

/-- An input with a line that does not fit can be fed until the buffer is left. -/
theorem exists_not_inBounds (hsize : 2 ≤ size) (hlt : size < 2 ^ 32) {s₀ : TerminalDevice}
    (h₀ : s₀.Initial) (input : List UInt8) (hfit : ¬ LinesFit input) :
    ∃ s, Reachable Initial (Step size echo) s ∧ s.rxFifo.popped <+: input ∧ ¬ s.InBounds := by
  induction input using List.reverseRecOn with
  | nil => exact absurd (by simp [LinesFit]) hfit
  | append_singleton input c ih =>
      by_cases hbefore : LinesFit input
      · obtain ⟨s, hs, hready⟩ := @exists_ready size echo hsize hlt s₀ h₀ input hbefore
        obtain ⟨t, hrun, hpopped, -⟩ :=
          hready.take hsize hlt (inv_of_reachable (by omega) hlt hs) c
        have ht := hs.run hrun
        have hinv := inv_of_reachable (by omega) hlt ht
        refine ⟨t, ht, hpopped ▸ List.prefix_refl _, ?_⟩
        rw [hinv.inBounds_iff, hpopped]
        exact hfit
      · obtain ⟨s, hs, hprefix, hout⟩ := ih hbefore
        exact ⟨s, hs, hprefix.trans (List.prefix_append input [c]), hout⟩

/-! The calls: each takes what had come in when it loaded the index for the last time. -/

theorem mainStep_of_idle (hmain : s.main = .idle) :
    s.mainStep size echo = { s with main := .loop false } := by
  simp only [TerminalDevice.mainStep, hmain]

theorem mainStep_of_outOfBounds {index : Nat} (hmain : s.main = .outOfBounds index) :
    s.mainStep size echo = s := by
  simp only [TerminalDevice.mainStep, hmain]

/-- A step within a call is a step of `pop()`. -/
theorem rxFifo_mainStep {flushTx : Bool} (hmain : s.main = .loop flushTx) :
    (s.mainStep size echo).rxFifo = s.rxFifo.consumerStep size := by
  simp only [TerminalDevice.mainStep, hmain]
  split
  · rfl
  · rfl
  · split <;> rfl

/-- A call returns when `pop()` has found nothing. -/
theorem mainStep_idle_iff {flushTx : Bool} (hmain : s.main = .loop flushTx) :
    (s.mainStep size echo).main = .idle ↔ s.rxFifo.popResult = some none := by
  simp only [TerminalDevice.mainStep, hmain]
  split
  · next hresult => simp [hresult]
  · next hresult => simp [hresult]
  · next c hresult => split <;> simp [hresult]

/-- Outside of a call there is no `pop()` under way. -/
theorem consumer_idle_of_reachable (h : Reachable Initial (Step size echo) s)
    (hmain : s.main = .idle) : s.rxFifo.consumer = .idle := by
  refine @Reachable.invariant _ Initial (Step size echo)
    (fun s => s.main = .idle → s.rxFifo.consumer = .idle) ?_ ?_ s h hmain
  · rintro s ⟨-, -, ⟨ring, hrx⟩, -⟩ -
    rw [hrx]
  · intro s t hs hstep hidle
    cases hstep with
    | isr c => exact hs hidle
    | reopen => rfl
    | main =>
        cases hpc : s.main with
        | idle => rw [mainStep_of_idle hpc] at hidle; cases hidle
        | outOfBounds index =>
            rw [mainStep_of_outOfBounds hpc, hpc] at hidle
            cases hidle
        | loop flushTx =>
            rw [rxFifo_mainStep hpc]
            exact Channel.consumer_of_popResult ((mainStep_idle_iff hpc).mp hidle)

/-- A comparison is made with the index that was loaded before the last bytes came in. -/
theorem exists_load (h : Reachable Initial (Step size echo) s) {flushTx : Bool}
    (hmain : s.main = .loop flushTx) {writeIndex : Nat}
    (hconsumer : s.rxFifo.consumer = .popCompare writeIndex) :
    ∃ u, Reachable Initial (Step size echo) u ∧ u.Loads ∧
      Relation.ReflTransGen (Receives size) (u.mainStep size echo) s := by
  obtain ⟨s₀, hinit, hrun⟩ := h
  induction hrun generalizing flushTx writeIndex with
  | refl =>
      obtain ⟨-, -, -, hidle⟩ := hinit
      rw [hidle] at hmain
      cases hmain
  | @tail s t hprefix hstep ih =>
      have hs : Reachable Initial (Step size echo) s := ⟨s₀, hinit, hprefix⟩
      cases hstep with
      | isr c =>
          obtain ⟨u, hu, hload, hreceived⟩ := ih hmain hconsumer
          exact ⟨u, hu, hload, hreceived.tail (.isr c s)⟩
      | reopen => cases hmain
      | main =>
          refine ⟨s, hs, ?_, .refl⟩
          cases hpc : s.main with
          | idle =>
              have hidle := consumer_idle_of_reachable hs hpc
              rw [mainStep_of_idle hpc] at hconsumer
              exact absurd (hidle.symm.trans hconsumer) (by simp)
          | outOfBounds index =>
              rw [mainStep_of_outOfBounds hpc, hpc] at hmain
              cases hmain
          | loop flushTx =>
              rw [rxFifo_mainStep hpc] at hconsumer
              exact ⟨⟨flushTx, hpc⟩, Channel.consumer_of_popCompare hconsumer⟩

/-- What comes in does not reach the consumer. -/
theorem Receives.frame (h : Relation.ReflTransGen (Receives size) s t) :
    t.rxFifo.popped = s.rxFifo.popped ∧ t.rxFifo.consumer = s.rxFifo.consumer ∧
      t.rxFifo.ring.readIndex = s.rxFifo.ring.readIndex := by
  induction h with
  | refl => exact ⟨rfl, rfl, rfl⟩
  | tail _ hstep ih =>
      obtain ⟨c, s⟩ := hstep
      refine ⟨ih.1, ih.2.1, Eq.trans ?_ ih.2.2⟩
      simp only [isrReceive, Channel.atomicPush, RingBuffer.push]
      split <;> rfl

/-- A call that returns has taken all that was accepted at its last load. -/
theorem popped_eq_of_returnsNext (hsize : 0 < size) (hlt : size < 2 ^ 32)
    (h : Reachable Initial (Step size echo) s) (hreturns : s.ReturnsNext size echo) :
    ∃ u, Reachable Initial (Step size echo) u ∧ u.Loads ∧
      Relation.ReflTransGen (Receives size) (u.mainStep size echo) s ∧
      (s.mainStep size echo).rxFifo.popped = u.rxFifo.accepted := by
  obtain ⟨⟨flushTx, hmain⟩, hidle⟩ := hreturns
  have hresult := (mainStep_idle_iff hmain).mp hidle
  obtain ⟨writeIndex, hconsumer, hempty⟩ := Channel.popCompare_of_popResult hresult
  obtain ⟨u, hu, hload, hreceived⟩ := exists_load h hmain hconsumer
  refine ⟨u, hu, hload, hreceived, ?_⟩
  obtain ⟨⟨flushTx', hloop⟩, hbegins⟩ := hload
  obtain ⟨hpopped, hsame, hread⟩ := Receives.frame hreceived
  rw [rxFifo_mainStep hloop] at hpopped hsame hread
  simp only [Channel.consumerStep, hbegins] at hpopped hsame hread
  rw [hconsumer, Consumer.popCompare.injEq] at hsame
  rw [rxFifo_mainStep hmain, s.rxFifo.consumerStep_popped, hresult]
  simp only [Option.join_some, Option.toList_none, List.append_nil]
  exact (inv_of_reachable hsize hlt hu).rx.popped_eq_of_compare
    (inv_of_reachable hsize hlt h).rx hpopped (hempty.trans hsame)

theorem Returns.of_popResult_none {terminal : Terminal} {rxFifo : Channel UInt8}
    {flushTx : Bool} (h : rxFifo.popResult = none)
    (ht : Returns size echo ⟨terminal, rxFifo.consumerStep size, .loop flushTx⟩ t) :
    Returns size echo ⟨terminal, rxFifo, .loop flushTx⟩ t :=
  .next _ t (nomatch ·) (by rwa [mainStep_of_popResult_none h])

theorem Inv.of_popResult_none {terminal : Terminal} {rxFifo : Channel UInt8}
    {flushTx : Bool} (hsize : 0 < size) (hlt : size < 2 ^ 32) (h : rxFifo.popResult = none)
    (hinv : Inv size echo ⟨terminal, rxFifo, .loop flushTx⟩) :
    Inv size echo ⟨terminal, rxFifo.consumerStep size, .loop flushTx⟩ :=
  mainStep_of_popResult_none h ▸ hinv.mainStep hsize hlt

/-- If nothing more comes in, a call returns and has taken everything. -/
theorem exists_returns (hsize : 0 < size) (hlt : size < 2 ^ 32) (hinv : s.Inv size echo)
    (hload : s.Loads) {rest : List UInt8} (hrest : s.rxFifo.accepted = s.rxFifo.popped ++ rest)
    (hfit : LinesFit s.rxFifo.accepted) :
    ∃ t, Returns size echo s t ∧ t.main = .idle ∧ t.rxFifo.accepted = s.rxFifo.accepted ∧
      t.rxFifo.popped = s.rxFifo.accepted := by
  induction rest generalizing s with
  | nil =>
      obtain ⟨⟨flushTx, hmain⟩, hidle⟩ := hload
      rw [List.append_nil] at hrest
      obtain ⟨h₁, h₂, -, haccepted, hpopped⟩ := hinv.rx.pop_empty hidle hrest.symm
      obtain ⟨terminal, rxFifo, main⟩ := s
      obtain rfl : main = .loop flushTx := hmain
      let s₁ : TerminalDevice := ⟨terminal, rxFifo.consumerStep size, .loop flushTx⟩
      have hlast : (s₁.mainStep size echo).main = .idle := (mainStep_idle_iff rfl).mpr h₂
      have hfifo : (s₁.mainStep size echo).rxFifo = _ := rxFifo_mainStep rfl
      refine ⟨s₁.mainStep size echo,
        .of_popResult_none h₁ (.next s₁ _ (nomatch ·) (.done _ hlast)), hlast, ?_, ?_⟩
      · rw [hfifo]
        exact haccepted
      · rw [hfifo]
        exact hpopped.trans hrest.symm
  | cons c rest ih =>
      obtain ⟨⟨flushTx, hmain⟩, hidle⟩ := hload
      obtain ⟨h₁, h₂, h₃, h₄, hconsumer, haccepted, hpopped⟩ := hinv.rx.pop_next hidle hrest
      obtain ⟨terminal, rxFifo, main⟩ := s
      obtain rfl : main = .loop flushTx := hmain
      let s₃ : TerminalDevice := ⟨terminal,
        ((rxFifo.consumerStep size).consumerStep size).consumerStep size, .loop flushTx⟩
      have hinv₃ : s₃.Inv size echo := Inv.of_popResult_none hsize hlt h₃
        (Inv.of_popResult_none hsize hlt h₂ (Inv.of_popResult_none hsize hlt h₁ hinv))
      have hinv₄ := hinv₃.mainStep hsize hlt
      have hfifo : (s₃.mainStep size echo).rxFifo = s₃.rxFifo.consumerStep size :=
        rxFifo_mainStep rfl
      rw [← hfifo] at hconsumer haccepted hpopped
      have hsplit : rxFifo.accepted = (rxFifo.popped ++ [c]) ++ rest := by
        rw [List.append_assoc]
        exact hrest
      have hbounds : (s₃.mainStep size echo).InBounds := by
        refine hinv₄.inBounds_iff.mpr (LinesFit.of_append rest ?_)
        rw [hpopped, ← hsplit]
        exact hfit
      have hloop : ∃ flushTx, (s₃.mainStep size echo).main = .loop flushTx := by
        cases hpc : (s₃.mainStep size echo).main with
        | idle =>
            have hnone := (mainStep_idle_iff rfl).mp hpc
            exact absurd (h₄.symm.trans hnone) (by simp)
        | outOfBounds index => exact absurd hpc (hbounds index)
        | loop flushTx => exact ⟨flushTx, rfl⟩
      obtain ⟨t, hreturns, hmain, htaccepted, htpopped⟩ := ih hinv₄ ⟨hloop, hconsumer⟩
        (by rw [haccepted, hpopped]; exact hsplit) (by rw [haccepted]; exact hfit)
      rw [haccepted] at htaccepted htpopped
      exact ⟨t, .of_popResult_none h₁ (.of_popResult_none h₂ (.of_popResult_none h₃
        (.next s₃ t (nomatch ·) hreturns))), hmain, htaccepted, htpopped⟩

theorem exists_processInput (hsize : 0 < size) (hlt : size < 2 ^ 32)
    (h : Reachable Initial (Step size echo) s) (hmain : s.main = .idle)
    (hfit : LinesFit s.rxFifo.accepted) :
    ∃ t, ProcessInput size echo s t ∧ t.main = .idle ∧
      t.rxFifo.accepted = s.rxFifo.accepted ∧ t.rxFifo.popped = s.rxFifo.accepted := by
  have hinv := inv_of_reachable hsize hlt h
  obtain ⟨rest, hrest⟩ := hinv.rx.order
  have hbegin := hinv.mainStep hsize hlt
  rw [mainStep_of_idle hmain] at hbegin
  have hconsumer := consumer_idle_of_reachable h hmain
  obtain ⟨t, hreturns, hidle, haccepted, hpopped⟩ := exists_returns hsize hlt hbegin
    ⟨⟨false, rfl⟩, hconsumer⟩ hrest.symm hfit
  exact ⟨t, ⟨hmain, mainStep_of_idle hmain ▸ hreturns⟩, hidle, haccepted, hpopped⟩

theorem Returns.run (h : Returns size echo s t) :
    Relation.ReflTransGen (Step size echo) s t := by
  induction h with
  | done s h => exact .refl
  | next s t h hrest ih => exact .head (.main s) ih

theorem ProcessInput.run (h : ProcessInput size echo s t) :
    Relation.ReflTransGen (Step size echo) s t := .head (.main s) h.2.run

/-- A chunk that finds room comes in whole. -/
theorem receive_spec (hsize : 0 < size) (hlt : size < 2 ^ 32)
    (h : Reachable Initial (Step size echo) s) {chunk : List UInt8}
    (hroom : s.rxFifo.accepted.length + chunk.length < s.rxFifo.popped.length + size) :
    Reachable Initial (Step size echo) (s.receive size chunk) ∧
      (s.receive size chunk).main = s.main ∧
      (s.receive size chunk).rxFifo.popped = s.rxFifo.popped ∧
      (s.receive size chunk).rxFifo.accepted = s.rxFifo.accepted ++ chunk := by
  induction chunk generalizing s with
  | nil => exact ⟨h, rfl, rfl, (List.append_nil _).symm⟩
  | cons c chunk ih =>
      rw [List.length_cons] at hroom
      have haccepted : (s.isrReceive size c).rxFifo.accepted = s.rxFifo.accepted ++ [c] :=
        (inv_of_reachable hsize hlt h).rx.atomicPush_accepted hlt (by omega) c
      obtain ⟨hreachable, hmain, hpopped, hall⟩ := ih (h.next (.isr c s)) (by
        rw [haccepted, List.length_append, List.length_singleton]
        change _ < s.rxFifo.popped.length + size
        omega)
      refine ⟨hreachable, hmain, hpopped, hall.trans ?_⟩
      rw [haccepted, List.append_assoc, List.singleton_append]

/-- The chunks are taken one by one. -/
theorem exists_chunked (hsize : 0 < size) (hlt : size < 2 ^ 32)
    (h : Reachable Initial (Step size echo) s) (hmain : s.main = .idle)
    (hempty : s.rxFifo.popped = s.rxFifo.accepted) {chunks : List (List UInt8)}
    (hchunks : ∀ chunk ∈ chunks, chunk.length < size)
    (hfit : LinesFit (s.rxFifo.accepted ++ chunks.flatten)) :
    ∃ t, Chunked size echo chunks s t ∧ Reachable Initial (Step size echo) t ∧
      t.main = .idle ∧ t.rxFifo.popped = s.rxFifo.accepted ++ chunks.flatten := by
  induction chunks generalizing s with
  | nil =>
      refine ⟨s, .nil s, h, hmain, ?_⟩
      rw [hempty, List.flatten_nil, List.append_nil]
  | cons chunk chunks ih =>
      have hlength := hchunks chunk List.mem_cons_self
      obtain ⟨hreceived, hidle, hpopped, haccepted⟩ := receive_spec hsize hlt h
        (show _ + chunk.length < _ by rw [hempty]; omega)
      rw [List.flatten_cons, ← List.append_assoc, ← haccepted] at hfit ⊢
      obtain ⟨t, hcall, htmain, htaccepted, htpopped⟩ := exists_processInput hsize hlt hreceived
        (hidle.trans hmain) (hfit.of_append _)
      rw [← htaccepted] at hfit ⊢
      obtain ⟨u, hrest, hu, humain, hupopped⟩ := ih (hreceived.run hcall.run) htmain
        (htpopped.trans htaccepted.symm)
        (fun chunk hchunk => hchunks chunk (List.mem_cons_of_mem _ hchunk)) hfit
      exact ⟨u, .cons chunk chunks s t u hcall hrest, hu, humain, hupopped⟩

/-- A zeroed device. -/
def start : TerminalDevice where
  terminal := ⟨Vector.replicate cmdBufSize 0, 0, []⟩
  rxFifo := ⟨⟨0, 0, fun _ => 0⟩, .idle, .idle, [], []⟩
  main := .idle

theorem start_initial : start.Initial := ⟨rfl, rfl, ⟨start.rxFifo.ring, rfl⟩, rfl⟩

end TerminalDevice

/-- In every run all accesses to the buffer have been inside it, exactly if no line that
was taken has filled the buffer before its CR; and unless the fifo cannot hold a byte,
every input with such a line has a run that leaves the buffer. -/
theorem terminal_inBounds_iff_linesFit {size : Nat} (echo : Bool) (hsize : 1 ≤ size)
    (hlt : size < 2 ^ 32) :
    (∀ s, Reachable TerminalDevice.Initial (TerminalDevice.Step size echo) s →
      (s.InBounds ↔ Terminal.LinesFit s.rxFifo.popped) ∧
        s.rxFifo.popped <+: s.rxFifo.accepted) ∧
    (2 ≤ size → ∀ input : List UInt8,
      (∀ s, Reachable TerminalDevice.Initial (TerminalDevice.Step size echo) s →
        s.rxFifo.popped <+: input → s.InBounds) ↔ Terminal.LinesFit input) := by
  have hrun : ∀ s, Reachable TerminalDevice.Initial (TerminalDevice.Step size echo) s →
      s.Inv size echo := fun _ => TerminalDevice.inv_of_reachable hsize hlt
  refine ⟨fun s hs => ⟨(hrun s hs).inBounds_iff, (hrun s hs).rx.order⟩, ?_⟩
  intro hbyte input
  constructor
  · intro hall
    by_contra hfit
    obtain ⟨s, hs, hprefix, hout⟩ :=
      TerminalDevice.exists_not_inBounds hbyte hlt TerminalDevice.start_initial input hfit
    exact hout (hall s hs hprefix)
  · rintro hfit s hs ⟨rest, rfl⟩
    exact (hrun s hs).inBounds_iff.mpr (hfit.of_append rest)

theorem TerminalDevice.Inv.processed {size : Nat} {echo : Bool} {s : TerminalDevice}
    (h : s.Inv size echo) (hfit : Terminal.LinesFit s.rxFifo.popped) :
    s.terminal.Processed echo s.rxFifo.popped := by
  have hholds := h.holds hfit
  refine ⟨?_, hholds.index, hholds.text, fun η execute hooks => ?_⟩
  · rw [← TxCall.executed_filter, hholds.calls, TxCall.executed_transcript]
  · rw [TxCall.output, ← TxCall.foldl_print_filter, hholds.calls, TxCall.output]

/-- The bytes taken determine what is executed, the line that is being typed, and all
that a stream which never drops has printed; a call that returns has taken what had been
accepted when it loaded the index for the last time, and does return when nothing more
comes in.  So every input that fits can come in any chunks, and all chunks do the same. -/
theorem terminal_run_eq_lines {size : Nat} {echo : Bool} (hsize : 1 ≤ size)
    (hlt : size < 2 ^ 32) :
    (∀ s, Reachable TerminalDevice.Initial (TerminalDevice.Step size echo) s →
      Terminal.LinesFit s.rxFifo.popped →
        s.rxFifo.popped <+: s.rxFifo.accepted ∧
          Terminal.Processed.{u} echo s.rxFifo.popped s.terminal) ∧
    (∀ s, Reachable TerminalDevice.Initial (TerminalDevice.Step size echo) s →
      s.ReturnsNext size echo →
        ∃ load, Reachable TerminalDevice.Initial (TerminalDevice.Step size echo) load ∧
          load.Loads ∧
          Relation.ReflTransGen (TerminalDevice.Receives size) (load.mainStep size echo) s ∧
          (s.mainStep size echo).rxFifo.popped = load.rxFifo.accepted) ∧
    (∀ s, Reachable TerminalDevice.Initial (TerminalDevice.Step size echo) s →
      s.main = .idle → Terminal.LinesFit s.rxFifo.accepted →
        ∃ t, TerminalDevice.ProcessInput size echo s t ∧
          t.rxFifo.accepted = s.rxFifo.accepted ∧ t.rxFifo.popped = s.rxFifo.accepted) ∧
    ∀ s, TerminalDevice.Initial s → ∀ chunks : List (List UInt8),
      (∀ chunk ∈ chunks, chunk.length < size) → Terminal.LinesFit chunks.flatten →
        ∃ t, TerminalDevice.Chunked size echo chunks s t ∧ t.main = .idle ∧
          t.rxFifo.popped = chunks.flatten ∧
          Terminal.Processed.{u} echo chunks.flatten t.terminal := by
  refine ⟨fun s hs hfit => ?_, fun s hs hreturns => ?_, fun s hs hmain hfit => ?_,
    fun s hs chunks hchunks hfit => ?_⟩
  · have hinv := TerminalDevice.inv_of_reachable hsize hlt hs
    exact ⟨hinv.rx.order, hinv.processed hfit⟩
  · exact TerminalDevice.popped_eq_of_returnsNext hsize hlt hs hreturns
  · obtain ⟨t, hcall, -, ht⟩ := TerminalDevice.exists_processInput hsize hlt hs hmain hfit
    exact ⟨t, hcall, ht⟩
  · obtain ⟨-, -, ⟨ring, hrx⟩, hmain⟩ := id hs
    have hnone : s.rxFifo.accepted = [] := by rw [hrx]
    have hempty : s.rxFifo.popped = s.rxFifo.accepted := by rw [hrx]
    obtain ⟨t, hchunked, ht, hidle, hpopped⟩ := TerminalDevice.exists_chunked hsize hlt
      (.start hs) hmain hempty hchunks (by rwa [hnone])
    rw [hnone, List.nil_append] at hpopped
    have hinv := TerminalDevice.inv_of_reachable hsize hlt ht
    refine ⟨t, hchunked, hidle, hpopped, hpopped ▸ hinv.processed ?_⟩
    rw [hpopped]
    exact hfit

namespace TerminalTest

/-- As many letters as the buffer has elements. -/
def fullLine : List UInt8 := List.replicate 80 97

/-- The CR after a full line stores its 0 behind the buffer. -/
theorem terminal_full_line_not_inBounds :
    ∃ s, Reachable TerminalDevice.Initial (TerminalDevice.Step 256 true) s ∧
      s.rxFifo.popped = fullLine ++ [13] ∧ ¬ s.InBounds := by
  obtain ⟨s, hs, hprefix, hout⟩ := @TerminalDevice.exists_not_inBounds 256 true (by decide)
    (by decide) TerminalDevice.start TerminalDevice.start_initial (fullLine ++ [13]) (by decide)
  refine ⟨s, hs, (List.prefix_concat_iff.mp hprefix).resolve_right ?_, hout⟩
  rintro ⟨rest, hrest⟩
  have hinv := TerminalDevice.inv_of_reachable (by decide) (by decide) hs
  have hfit : Terminal.LinesFit (s.rxFifo.popped ++ rest) := by
    rw [hrest]
    decide
  exact hout (hinv.inBounds_iff.mpr (hfit.of_append rest))

theorem terminal_inBounds_iff_linesFit_full_line :
    (∀ s, Reachable TerminalDevice.Initial (TerminalDevice.Step 256 true) s →
      s.rxFifo.popped <+: [97, 98, 13] → s.InBounds) ∧
    ¬ ∀ s, Reachable TerminalDevice.Initial (TerminalDevice.Step 256 true) s →
      s.rxFifo.popped <+: fullLine ++ [13] → s.InBounds := by
  have hinput := (@terminal_inBounds_iff_linesFit 256 true (by decide) (by decide)).2 (by decide)
  exact ⟨(hinput _).mpr (by decide), fun hall => absurd ((hinput _).mp hall) (by decide)⟩

/-- One line and a half, at once and in three chunks. -/
theorem terminal_run_eq_lines_command :
    ∃ s t : TerminalDevice,
      TerminalDevice.Chunked 256 true [[97, 7, 98, 13, 13, 99]] TerminalDevice.start s ∧
      TerminalDevice.Chunked 256 true [[97], [7, 98, 13], [], [13, 99]] TerminalDevice.start t ∧
      TxCall.executed s.terminal.calls = [[97, 98]] ∧
      TxCall.executed t.terminal.calls = [[97, 98]] ∧
      t.terminal.cmdBuf.toList.take t.terminal.cmdIndex = [99] := by
  obtain ⟨-, -, -, hchunks⟩ := @terminal_run_eq_lines.{0} 256 true (by decide) (by decide)
  obtain ⟨s, hs, -, -, hwhole⟩ := hchunks TerminalDevice.start TerminalDevice.start_initial
    [[97, 7, 98, 13, 13, 99]] (by decide) (by decide)
  obtain ⟨t, ht, -, -, hparts⟩ := hchunks TerminalDevice.start TerminalDevice.start_initial
    [[97], [7, 98, 13], [], [13, 99]] (by decide) (by decide)
  exact ⟨s, t, hs, ht, hwhole.executed, hparts.executed, hparts.cmdBuf⟩

end TerminalTest

end OpenMptl
