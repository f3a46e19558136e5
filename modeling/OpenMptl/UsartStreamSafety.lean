/-
Safety of the USART stream under preemption at any step of the main program.
Both fifos simulate the ring buffer with one producer and one consumer.  The
routine may disable its interrupt while the main program fills the fifo; what
repairs this is the store to CR1 after the last push of a flushing call.
-/
import OpenMptl.UsartStream

namespace OpenMptl

namespace StreamCall

variable {crlf : Bool} {call : StreamCall} {todo : List StreamOp}

/-- A call that reaches a push is a writing call, and if it flushes then the flush
is still to come. -/
theorem ops_suffix_fifo {push : PushCall UInt8}
    (h : .fifo push :: todo <:+ call.ops crlf) :
    call.pushes = true ∧ (call.flushes = true → todo ≠ []) := by
  cases call with
  | put | puts | write => exact ⟨rfl, fun hflush => nomatch hflush⟩
  | flush | read => simp [ops, List.suffix_cons_iff] at h
  | endl =>
      refine ⟨rfl, fun _ => ?_⟩
      rintro rfl
      cases crlf <;> simp [ops, List.suffix_cons_iff] at h

/-- Setting TXEIE is the last that a flushing call does. -/
theorem ops_suffix_enable (h : .enableTxInterrupt :: todo <:+ call.ops crlf) :
    call.flushes = true ∧ todo = [] := by
  cases call with
  | put | puts | write | read => simp [ops, List.suffix_cons_iff] at h
  | flush => exact ⟨rfl, by simpa [ops, List.suffix_cons_iff] using h⟩
  | endl =>
      refine ⟨rfl, ?_⟩
      cases crlf <;> simpa [ops, List.suffix_cons_iff] using h

theorem ops_suffix_pop (h : .pop :: todo <:+ call.ops crlf) : call.flushes = false := by
  cases call with
  | put | puts | write | read => rfl
  | flush => simp [ops, List.suffix_cons_iff] at h
  | endl => cases crlf <;> simp [ops, List.suffix_cons_iff] at h

theorem ops_ne_nil : call.ops crlf ≠ [] := by
  cases call <;> simp [ops]

end StreamCall

section Window

variable (closes : StreamCall → Bool) (events : List StreamEvent) (call : StreamCall)

theorem windowOpen_start : windowOpen closes (events ++ [.start call]) =
    (windowOpen closes events && !closes call) := by
  simp [windowOpen]

theorem windowOpen_ret : windowOpen closes (events ++ [.ret call]) =
    (windowOpen closes events || call.flushes) := by
  simp [windowOpen]

end Window

namespace UsartStream

variable {cfg : StreamConfig} {s t : UsartStream}

/-- The call that the main program is in. -/
def call (s : UsartStream) : Option StreamCall :=
  match s.main with
  | .idle => none
  | .run call _ => some call
  | .enabling call _ _ => some call

/-- The main program follows the body of its call; while a push is under way, a
flush of the same call has not happened yet. -/
def MainConsistent (cfg : StreamConfig) (s : UsartStream) : Prop :=
  match s.main with
  | .idle => s.txFifo.producer = .idle
  | .run call todo => todo <:+ call.ops cfg.crlf ∧
      (s.txFifo.producer ≠ .idle → call.pushes = true ∧ (call.flushes = true → todo ≠ []))
  | .enabling call todo _ =>
      (call.flushes = true ∧ todo = []) ∧ s.txFifo.producer = .idle

/-- A flush is complete and no later call has pushed. -/
def Settled (s : UsartStream) : Prop :=
  windowOpen StreamCall.pushes s.events = true ∨
    ∃ call, s.main = .run call [] ∧ call.flushes = true

structure Inv (cfg : StreamConfig) (s : UsartStream) : Prop where
  sent : s.sent = s.txFifo.popped
  txConsumer : s.txFifo.consumer = .idle
  rxProducer : s.rxFifo.producer = .idle
  received : s.rxFifo.accepted = (s.received.filter (·.2)).map (·.1)
  main : s.MainConsistent cfg
  window : windowOpen StreamCall.pushes s.events = true →
    ∀ call, s.call = some call → call.pushes = false
  wakeup : s.Settled → s.TxNonempty → s.TxInterruptEnabled

theorem Inv.of_initial (h : s.Initial) : s.Inv cfg := by
  obtain ⟨⟨txRing, htx⟩, ⟨rxRing, hrx⟩, hmain, hsent, hreceived, hevents⟩ := h
  exact {
    sent := by rw [hsent, htx]
    txConsumer := by rw [htx]
    rxProducer := by rw [hrx]
    received := by rw [hrx, hreceived]; rfl
    main := by
      simp only [MainConsistent, hmain]
      rw [htx]
    window := fun hopen => by simp [hevents, windowOpen] at hopen
    wakeup := fun _ hnonempty => absurd (by rw [htx]; rfl) hnonempty }

/-- A call that is pushing is neither behind its flush nor in a window. -/
theorem Inv.not_settled (h : s.Inv cfg) (hproducer : s.txFifo.producer ≠ .idle) :
    ¬ s.Settled := by
  have hmain := h.main
  have hwindow := h.window
  simp only [MainConsistent] at hmain
  simp only [call] at hwindow
  rintro (hopen | ⟨call, hcall, hflushes⟩)
  · cases hpc : s.main with
    | idle => exact hproducer (by simpa [hpc] using hmain)
    | run call todo =>
        simp only [hpc] at hmain hwindow
        have hpushes := hwindow hopen call rfl
        rw [(hmain.2 hproducer).1] at hpushes
        exact absurd hpushes (by decide)
    | enabling call todo cr1 =>
        simp only [hpc] at hmain
        exact hproducer hmain.2
  · simp only [hcall] at hmain
    exact (hmain.2 hproducer).2 hflushes rfl

/-- Inside `push()` or `pushs()`. -/
theorem Inv.withTxProducer (h : s.Inv cfg) (hproducer : s.txFifo.producer ≠ .idle)
    (call : PushCall UInt8) :
    Inv cfg { s with txFifo := s.txFifo.producerStep cfg.size call } := by
  obtain ⟨hconsumer, hpopped⟩ := s.txFifo.producerStep_consumer cfg.size call
  exact { h with
    sent := h.sent.trans hpopped.symm
    txConsumer := hconsumer.trans h.txConsumer
    main := by
      have hmain := h.main
      simp only [MainConsistent] at hmain ⊢
      cases hpc : s.main with
      | idle => exact absurd (by simpa [hpc] using hmain) hproducer
      | run call todo =>
          simp only [hpc] at hmain
          exact ⟨hmain.1, fun _ => hmain.2 hproducer⟩
      | enabling call todo cr1 =>
          simp only [hpc] at hmain
          exact absurd hmain.2 hproducer
    wakeup := fun hsettled => absurd hsettled (h.not_settled hproducer) }

/-- Inside `pop()`. -/
theorem Inv.withRxConsumer (h : s.Inv cfg) :
    Inv cfg { s with rxFifo := s.rxFifo.consumerStep cfg.size } := by
  obtain ⟨hproducer, haccepted⟩ := s.rxFifo.consumerStep_producer cfg.size
  exact { h with
    rxProducer := hproducer.trans h.rxProducer
    received := haccepted.trans h.received }

/-- The store to CR1 after the last push: from now on the fifo will be drained. -/
theorem Inv.enable (h : s.Inv cfg) {call : StreamCall} (hcall : s.call = some call)
    (hidle : s.txFifo.producer = .idle) (cr1 : Nat) :
    Inv cfg { s with main := .run call [], cr1 := cr1 ||| 2 ^ txeie } :=
  { h with
    main := ⟨List.nil_suffix, fun hbusy => absurd hidle hbusy⟩
    window := by
      intro hopen call' hcall'
      obtain rfl : call = call' := Option.some.inj hcall'
      exact h.window hopen call hcall
    wakeup := by
      intro _ _
      change (cr1 ||| 2 ^ txeie).testBit txeie = true
      rw [Nat.testBit_or, Nat.testBit_two_pow_self, Bool.or_true] }

theorem Inv.mainNext (h : s.Inv cfg) (hidle : s.txFifo.producer = .idle)
    (next : StreamCall) : (s.mainNext cfg next).Inv cfg := by
  have hmain := h.main
  have hwindow := h.window
  have hwakeup := h.wakeup
  simp only [MainConsistent] at hmain
  simp only [call] at hwindow
  unfold UsartStream.mainNext
  split
  case h_1 hpc =>
      exact { h with
        main := ⟨List.suffix_refl _, fun hbusy => absurd hidle hbusy⟩
        window := by
          intro hopen call hcall
          obtain rfl : next = call := Option.some.inj hcall
          rw [windowOpen_start, Bool.and_eq_true] at hopen
          simpa using hopen.2
        wakeup := by
          rintro (hopen | ⟨call, hcall, -⟩)
          · rw [windowOpen_start, Bool.and_eq_true] at hopen
            exact hwakeup (.inl hopen.1)
          · simp only [StreamMain.run.injEq] at hcall
            exact absurd hcall.2 StreamCall.ops_ne_nil }
  case h_2 call hpc =>
      exact { h with
        main := hidle
        window := fun _ call hcall => nomatch hcall
        wakeup := by
          rintro (hopen | ⟨call', hcall', -⟩)
          · rw [windowOpen_ret, Bool.or_eq_true] at hopen
            exact hwakeup (hopen.imp_right fun hflushes => ⟨call, hpc, hflushes⟩)
          · exact nomatch hcall' }
  case h_3 call push todo hpc =>
      simp only [hpc] at hmain hwindow
      obtain ⟨hpushes, hlater⟩ := StreamCall.ops_suffix_fifo hmain.1
      obtain ⟨hring, hconsumer, hpopped⟩ := s.txFifo.beginCall_frame push
      exact { h with
        sent := h.sent.trans hpopped.symm
        txConsumer := hconsumer.trans h.txConsumer
        main := ⟨(List.suffix_cons _ _).trans hmain.1, fun _ => ⟨hpushes, hlater⟩⟩
        window := hwindow
        wakeup := by
          rintro (hopen | ⟨call', hcall, hflushes⟩) hnonempty
          · rw [hwindow hopen call rfl] at hpushes
            exact nomatch hpushes
          · obtain ⟨rfl, rfl⟩ : call = call' ∧ todo = [] := by simpa using hcall
            exact absurd rfl (hlater hflushes) }
  case h_4 call todo hpc =>
      simp only [hpc] at hmain hwindow
      obtain ⟨hflushes, rfl⟩ := StreamCall.ops_suffix_enable hmain.1
      have hcall : s.call = some call := by simp [UsartStream.call, hpc]
      split
      · exact h.enable hcall hidle s.cr1
      · exact { h with
          main := ⟨⟨hflushes, rfl⟩, hidle⟩
          window := hwindow
          wakeup := by
            rintro (hopen | ⟨call', hcall', -⟩)
            · exact hwakeup (.inl hopen)
            · exact nomatch hcall' }
  case h_5 call todo hpc =>
      simp only [hpc] at hmain hwindow
      have hpop := h.withRxConsumer
      exact { hpop with
        main := ⟨(List.suffix_cons _ _).trans hmain.1, fun hbusy => absurd hidle hbusy⟩
        window := hwindow
        wakeup := by
          rintro (hopen | ⟨call', hcall, hflushes⟩)
          · exact hwakeup (.inl hopen)
          · obtain ⟨rfl, rfl⟩ : call = call' ∧ todo = [] := by simpa using hcall
            rw [StreamCall.ops_suffix_pop hmain.1] at hflushes
            exact nomatch hflushes }
  case h_6 call todo cr1 hpc =>
      simp only [hpc] at hmain
      obtain ⟨⟨hflushes, rfl⟩, -⟩ := hmain
      have hcall : s.call = some call := by simp [UsartStream.call, hpc]
      exact h.enable hcall hidle cr1

theorem Inv.mainStep (h : s.Inv cfg) (next : StreamCall) :
    (s.mainStep cfg next).Inv cfg := by
  unfold UsartStream.mainStep
  split
  case h_1 hidle =>
      split
      case h_1 => exact h.mainNext hidle next
      all_goals exact h.withRxConsumer
  all_goals
    next hpc => exact h.withTxProducer (by simp [hpc]) _

theorem Inv.isrReceive (h : s.Inv cfg) (data : Nat) : (s.isrReceive cfg data).Inv cfg :=
  { h with
    received := by
      change (if _ then _ else _) = _
      simp only [UsartStream.isrReceive, List.filter_append, List.map_append, ← h.received]
      cases (s.rxFifo.ring.push cfg.size (UInt8.ofNat data)).1 <;> simp }

/-- The routine disables its interrupt only when it has found the fifo empty. -/
theorem Inv.isrTransmit (h : s.Inv cfg) : (s.isrTransmit cfg).Inv cfg := by
  rcases s.txFifo.atomicPop_cases cfg.size with ⟨hempty, hpop⟩ | ⟨hnonempty, hpop⟩
  · simp only [UsartStream.isrTransmit, hpop]
    exact { h with wakeup := fun _ hne => absurd hempty hne }
  · simp only [UsartStream.isrTransmit, hpop]
    exact { h with
      sent := congrArg (· ++ _) h.sent
      wakeup := fun hsettled _ => h.wakeup hsettled hnonempty }

theorem Inv.isr (h : s.Inv cfg) (flags : SrFlags) (data : Nat) :
    (s.isr cfg flags data).Inv cfg := by
  have hreceive : Inv cfg (if flags.rxne then s.isrReceive cfg data else s) := by
    split
    · exact h.isrReceive data
    · exact h
  simp only [UsartStream.isr]
  split
  · exact hreceive.isrTransmit
  · exact hreceive

theorem inv_of_reachable (h : Reachable Initial (Step cfg) s) : s.Inv cfg := by
  refine h.invariant (fun s hs => Inv.of_initial hs) ?_
  intro s t hs hstep
  cases hstep with
  | main next => exact hs.mainStep next
  | isr flags data => exact hs.isr flags data

/-! What a step does to each of the fifos. -/

theorem isrReceive_run (h : s.Inv cfg) (data : Nat) :
    Relation.ReflTransGen (Channel.Step cfg.size) s.rxFifo (s.isrReceive cfg data).rxFifo :=
  Channel.atomicPush_run h.rxProducer _

theorem isrTransmit_run (h : s.Inv cfg) :
    Relation.ReflTransGen (Channel.Step cfg.size) s.txFifo (s.isrTransmit cfg).txFifo := by
  have hrun : Relation.ReflTransGen (Channel.Step cfg.size) s.txFifo _ :=
    Channel.atomicPop_run h.txConsumer
  unfold isrTransmit
  split <;> next hpop => rwa [hpop] at hrun

theorem isrTransmit_rxFifo : (s.isrTransmit cfg).rxFifo = s.rxFifo := by
  unfold isrTransmit
  split <;> rfl

theorem mainStep_txFifo (next : StreamCall) :
    (s.mainStep cfg next).txFifo = s.txFifo ∨
      ∃ call, (s.mainStep cfg next).txFifo = s.txFifo.producerStep cfg.size call := by
  unfold mainStep
  split
  case h_1 hidle =>
      split
      case h_1 =>
          unfold mainNext
          split
          case h_3 call push todo hpc =>
              exact .inr ⟨push, by simp [Channel.producerStep, hidle]⟩
          case h_4 => split <;> exact .inl rfl
          all_goals exact .inl rfl
      all_goals exact .inl rfl
  all_goals exact .inr ⟨_, rfl⟩

theorem mainStep_rxFifo (next : StreamCall) :
    (s.mainStep cfg next).rxFifo = s.rxFifo ∨
      (s.mainStep cfg next).rxFifo = s.rxFifo.consumerStep cfg.size := by
  unfold mainStep
  split
  case h_1 =>
      split
      case h_1 =>
          unfold mainNext
          split
          case h_4 => split <;> exact .inl rfl
          case h_5 => exact .inr rfl
          all_goals exact .inl rfl
      all_goals exact .inr rfl
  all_goals exact .inl rfl

theorem step_txFifo (h : s.Inv cfg) (hstep : Step cfg s t) :
    Relation.ReflTransGen (Channel.Step cfg.size) s.txFifo t.txFifo := by
  cases hstep with
  | main next =>
      rcases mainStep_txFifo next with heq | ⟨call, heq⟩
      · rw [heq]
      · rw [heq]
        exact .single (.producer call s.txFifo)
  | isr flags data =>
      simp only [isr]
      split
      · split
        · exact isrTransmit_run (h.isrReceive data)
        · exact isrTransmit_run h
      · split <;> exact .refl

theorem step_rxFifo (h : s.Inv cfg) (hstep : Step cfg s t) :
    Relation.ReflTransGen (Channel.Step cfg.size) s.rxFifo t.rxFifo := by
  cases hstep with
  | main next =>
      rcases mainStep_rxFifo next with heq | heq
      · rw [heq]
      · rw [heq]
        exact .single (.consumer s.rxFifo)
  | isr flags data =>
      have hreceive : Relation.ReflTransGen (Channel.Step cfg.size) s.rxFifo
          (if flags.rxne then s.isrReceive cfg data else s).rxFifo := by
        split
        · exact isrReceive_run h data
        · exact .refl
      simp only [isr]
      split
      · rwa [isrTransmit_rxFifo]
      · exact hreceive

/-- Both fifos see one producer and one consumer. -/
theorem reachable_txFifo (h : Reachable Initial (Step cfg) s) :
    Reachable Channel.Initial (Channel.Step cfg.size) s.txFifo :=
  h.simulation UsartStream.txFifo (fun _ => inv_of_reachable) (fun _ hs => hs.1)
    fun _ _ => step_txFifo

theorem reachable_rxFifo (h : Reachable Initial (Step cfg) s) :
    Reachable Channel.Initial (Channel.Step cfg.size) s.rxFifo :=
  h.simulation UsartStream.rxFifo (fun _ => inv_of_reachable) (fun _ hs => hs.2.1)
    fun _ _ => step_rxFifo

end UsartStream

/-- In every run the bytes on the line are a prefix of the accepted ones, no wakeup
is lost between a flush and the next call that pushes, and what the program reads is
a prefix of what the routine has stored. -/
theorem usartStream_interleaving_safe {cfg : StreamConfig} (hsize : 1 ≤ cfg.size)
    (hlt : cfg.size < 2 ^ 32) {s : UsartStream}
    (h : Reachable UsartStream.Initial (UsartStream.Step cfg) s) :
    s.sent <+: s.txFifo.accepted ∧
    (windowOpen StreamCall.pushes s.events = true → s.TxNonempty → s.TxInterruptEnabled) ∧
    s.rxFifo.popped <+: (s.received.filter (·.2)).map (·.1) := by
  have hinv := UsartStream.inv_of_reachable h
  have htx := Channel.inv_of_reachable hsize hlt (UsartStream.reachable_txFifo h)
  have hrx := Channel.inv_of_reachable hsize hlt (UsartStream.reachable_rxFifo h)
  refine ⟨?_, fun hopen => hinv.wakeup (.inl hopen), ?_⟩
  · rw [hinv.sent]
    exact htx.order
  · rw [← hinv.received]
    exact hrx.order

namespace UsartStreamTest

def cfg : StreamConfig := { size := 4, crlf := true, bitband := true }

def fifo : Channel UInt8 := ⟨⟨0, 0, fun _ => 0⟩, .idle, .idle, [], []⟩

def start : UsartStream := ⟨fifo, fifo, 0x202c, .idle, [], [], []⟩

theorem start_initial : start.Initial :=
  ⟨⟨fifo.ring, rfl⟩, ⟨fifo.ring, rfl⟩, rfl, rfl, rfl, rfl⟩

/-- The main program makes `n` steps on its own. -/
def mainSteps : Nat → StreamCall → UsartStream → UsartStream
  | 0, _, s => s
  | n + 1, next, s => mainSteps n next (s.mainStep cfg next)

theorem mainSteps_reachable (n : Nat) (next : StreamCall) {s : UsartStream}
    (h : Reachable UsartStream.Initial (UsartStream.Step cfg) s) :
    Reachable UsartStream.Initial (UsartStream.Step cfg) (mainSteps n next s) := by
  induction n generalizing s with
  | zero => exact h
  | succ n ih => exact ih (h.next (.main next s))

/-- `put()`, `flush()`, one interrupt. -/
def afterPut : UsartStream :=
  (mainSteps 3 .flush (mainSteps 6 (.put 65) start)).isr cfg ⟨true, true⟩ 66

theorem usartStream_interleaving_safe_put :
    afterPut.sent = [65] ∧ afterPut.txFifo.accepted = [65] ∧
      afterPut.sent <+: afterPut.txFifo.accepted ∧
      windowOpen StreamCall.pushes afterPut.events = true ∧
      (afterPut.TxNonempty → afterPut.TxInterruptEnabled) ∧
      afterPut.rxFifo.popped <+: [66] := by
  have hrun := mainSteps_reachable 3 .flush
    (mainSteps_reachable 6 (.put 65) (.start start_initial))
  have hsafe := @usartStream_interleaving_safe cfg (by decide) (by decide) afterPut
    (hrun.next (.isr ⟨true, true⟩ 66 _))
  exact ⟨rfl, rfl, hsafe.1, rfl, hsafe.2.1 rfl, hsafe.2.2⟩

/-- The routine runs after a flush, finds the fifo empty and disables its interrupt;
then `endl()` pushes its first byte. -/
def insideEndl : UsartStream :=
  mainSteps 5 .endl ((mainSteps 3 .flush start).isr cfg ⟨false, true⟩ 0)

/-- With a window that only `put()`, `puts()` and `write()` end, a byte may wait in
it with the interrupt disabled. -/
theorem usartStream_endl_fills_with_interrupt_disabled :
    ¬ ∀ s, Reachable UsartStream.Initial (UsartStream.Step cfg) s →
      windowOpen StreamCall.isWrite s.events = true → s.TxNonempty →
        s.TxInterruptEnabled := by
  intro hclaim
  have hrun := mainSteps_reachable 3 .flush (.start start_initial)
  have hreachable := mainSteps_reachable 5 .endl (hrun.next (.isr ⟨false, true⟩ 0 _))
  have henabled : insideEndl.TxInterruptEnabled := hclaim _ hreachable rfl (by decide)
  exact absurd henabled (by decide)

end UsartStreamTest

end OpenMptl
