/-
Runs of the console.  Seen from the terminal they are runs of the terminal with its
fifo, seen from the stream they are runs of the stream; what is to be shown here is that
between the two no push is lost or made twice, unless the fifo has no room for it.
-/
import Mathlib.Data.List.Flatten
import OpenMptl.Console

namespace OpenMptl

universe u

/-! The pushes. -/

/-- The pushes that have ended: each has been treated as its room demands, those taken make
up `accepted`, and `rest` is still to be done. -/
structure Accounted (size : Nat) (ended : List (PushAttempt UInt8)) (accepted : List UInt8)
    (rest all : List (List UInt8)) : Prop where
  fair : ∀ a ∈ ended, a.Fair size
  accepted : accepted = ended.flatMap PushAttempt.kept
  all : ended.map PushAttempt.values ++ rest = all

namespace Accounted

variable {size : Nat} {ended : List (PushAttempt UInt8)} {accepted : List UInt8}
  {rest all : List (List UInt8)}

theorem extend (h : Accounted size ended accepted rest all) (more : List (List UInt8)) :
    Accounted size ended accepted (rest ++ more) (all ++ more) :=
  ⟨h.fair, h.accepted, by rw [← h.all, List.append_assoc]⟩

/-- The first of the pushes to be done has ended. -/
theorem ends {a : PushAttempt UInt8} (h : Accounted size ended accepted (a.values :: rest) all)
    (ha : a.Fair size) : Accounted size (ended ++ [a]) (accepted ++ a.kept) rest all := by
  refine ⟨fun b hb => ?_, ?_, ?_⟩
  · rcases List.mem_append.mp hb with hold | hlast
    · exact h.fair b hold
    · rwa [List.mem_singleton.mp hlast]
  · rw [h.accepted, List.flatMap_append, List.flatMap_singleton]
  · rw [← h.all, List.map_append, List.append_assoc]
    rfl

end Accounted

/-! The steps of the stream within a call. -/

theorem Channel.busy_of_popResult {channel : Channel UInt8} {result : Option UInt8}
    (h : channel.popResult = some result) : channel.consumer ≠ .idle := by
  intro hidle
  simp [popResult, hidle] at h

theorem StreamCall.ops_suffix_read {crlf : Bool} {call : StreamCall} {todo : List StreamOp}
    (h : .pop :: todo <:+ call.ops crlf) : call = .read ∧ todo = [] := by
  cases call with
  | put | puts | write => simp [ops, List.suffix_cons_iff] at h
  | flush => simp [ops, List.suffix_cons_iff] at h
  | endl => cases crlf <;> simp [ops, List.suffix_cons_iff] at h
  | read => exact ⟨rfl, by simpa [ops, List.suffix_cons_iff] using h⟩

namespace UsartStream

variable {cfg : StreamConfig} {s t : UsartStream}

/-- A step of the main program within a call that is not `read`, or within `read`. -/
inductive Move (cfg : StreamConfig) (s : UsartStream) : UsartStream → Prop
  | push (hpop : s.rxFifo.consumer = .idle) (hpush : s.txFifo.producer ≠ .idle) :
      Move cfg s { s with txFifo := s.txFifo.producerStep cfg.size (.push 0) }
  | pop (hpop : s.rxFifo.consumer ≠ .idle) :
      Move cfg s { s with rxFifo := s.rxFifo.consumerStep cfg.size }
  | ret (call : StreamCall) (hpop : s.rxFifo.consumer = .idle)
      (hmain : s.main = .run call []) :
      Move cfg s { s with main := .idle, events := s.events ++ [.ret call] }
  | beginPush (call : StreamCall) (push : PushCall UInt8) (todo : List StreamOp)
      (hpop : s.rxFifo.consumer = .idle) (hpush : s.txFifo.producer = .idle)
      (hmain : s.main = .run call (.fifo push :: todo)) (hcall : call.pushes = true) :
      Move cfg s { s with main := .run call todo, txFifo := s.txFifo.beginCall push }
  | enable (call : StreamCall) (main : StreamMain) (cr1 : Nat)
      (hpop : s.rxFifo.consumer = .idle) (hcall : s.call = some call)
      (hflushes : call.flushes = true)
      (hdone : s.main.todo.flatMap StreamOp.batches = [])
      (hmain : main = .run call [] ∨ main = .enabling call [] cr1) (cr1' : Nat) :
      Move cfg s { s with main := main, cr1 := cr1' }
  | beginPop (hpop : s.rxFifo.consumer = .idle) (hmain : s.main = .run .read [.pop]) :
      Move cfg s { s with
        main := .run .read []
        rxFifo := s.rxFifo.consumerStep cfg.size }

/-- `pop()` on the receive fifo is called by `read` only. -/
def Reading (s : UsartStream) : Prop := s.rxFifo.consumer ≠ .idle → s.main = .run .read []

theorem Inv.producer_of_reading (h : s.Inv cfg) (hreading : s.Reading)
    (hpop : s.rxFifo.consumer ≠ .idle) : s.txFifo.producer = .idle := by
  have hmain := h.main
  simp only [MainConsistent, hreading hpop] at hmain
  by_contra hpush
  exact absurd (hmain.2 hpush).1 (by decide)

theorem Inv.move (h : s.Inv cfg) (hreading : s.Reading) (hbusy : s.main ≠ .idle)
    (next : StreamCall) : Move cfg s (s.mainStep cfg next) := by
  have hmain := h.main
  simp only [MainConsistent] at hmain
  have hproducer := h.producer_of_reading hreading
  unfold UsartStream.mainStep
  split
  case h_1 hpush =>
      split
      case h_1 hpop =>
          unfold UsartStream.mainNext
          split
          case h_1 hpc => exact absurd hpc hbusy
          case h_2 call hpc => exact .ret call hpop hpc
          case h_3 call push todo hpc =>
              simp only [hpc] at hmain
              exact .beginPush call push todo hpop hpush hpc
                (StreamCall.ops_suffix_fifo hmain.1).1
          case h_4 call todo hpc =>
              simp only [hpc] at hmain
              obtain ⟨hflushes, rfl⟩ := StreamCall.ops_suffix_enable hmain.1
              have hcall : s.call = some call := by rw [UsartStream.call, hpc]
              have hdone : s.main.todo.flatMap StreamOp.batches = [] := by rw [hpc]; rfl
              split
              · exact .enable call _ 0 hpop hcall hflushes hdone (.inl rfl) _
              · exact .enable call _ s.cr1 hpop hcall hflushes hdone (.inr rfl) s.cr1
          case h_5 call todo hpc =>
              simp only [hpc] at hmain
              obtain ⟨rfl, rfl⟩ := StreamCall.ops_suffix_read hmain.1
              exact .beginPop hpop hpc
          case h_6 call todo cr1 hpc =>
              simp only [hpc] at hmain
              obtain ⟨⟨hflushes, rfl⟩, -⟩ := hmain
              have hcall : s.call = some call := by rw [UsartStream.call, hpc]
              have hdone : s.main.todo.flatMap StreamOp.batches = [] := by rw [hpc]; rfl
              exact .enable call _ 0 hpop hcall hflushes hdone (.inl rfl) _
      all_goals
        next hpc => exact .pop (by simp [hpc])
  all_goals
    next hpc =>
      refine .push ?_ (by simp [hpc])
      by_contra hpop
      rw [hproducer hpop] at hpc
      cases hpc

theorem Reading.consumer_idle (hreading : s.Reading) (hidle : s.main = .idle) :
    s.rxFifo.consumer = .idle := by
  by_contra hpop
  have hread := hreading hpop
  rw [hidle] at hread
  cases hread

/-- Between two calls, the next one starts. -/
theorem Inv.mainStep_idle (h : s.Inv cfg) (hreading : s.Reading) (hidle : s.main = .idle)
    (next : StreamCall) : s.mainStep cfg next =
      { s with main := .run next (next.ops cfg.crlf), events := s.events ++ [.start next] } := by
  have hpush : s.txFifo.producer = .idle := by
    have hmain := h.main
    simpa only [MainConsistent, hidle] using hmain
  have hpop := hreading.consumer_idle hidle
  simp only [UsartStream.mainStep, hpush, hpop]
  unfold UsartStream.mainNext
  rw [hidle]

theorem Move.reading (h : Move cfg s t) (hreading : s.Reading) : t.Reading := by
  intro hpop'
  cases h with
  | push hpop => exact absurd hpop hpop'
  | pop hpop => exact hreading hpop
  | ret call hpop => exact absurd hpop hpop'
  | beginPush call push todo hpop => exact absurd hpop hpop'
  | enable call main cr1 hpop => exact absurd hpop hpop'
  | beginPop => rfl

theorem Inv.mainStep_pop (h : s.Inv cfg) (hreading : s.Reading)
    (hpop : s.rxFifo.consumer ≠ .idle) (next : StreamCall) :
    s.mainStep cfg next = { s with rxFifo := s.rxFifo.consumerStep cfg.size } := by
  simp only [UsartStream.mainStep, h.producer_of_reading hreading hpop]
  cases hpc : s.rxFifo.consumer with
  | idle => exact absurd hpc hpop
  | popCompare | popRead | popStore => rfl

/-- What a step does not do now, is still to be done. -/
theorem Move.accounted (h : Move cfg s t) (hsize : 0 < cfg.size) (hlt : cfg.size < 2 ^ 32)
    (htx : s.txFifo.Inv cfg.size) {log : PushLog UInt8} (hjudged : log.Judged cfg.size s.txFifo)
    {more all : List (List UInt8)}
    (haccounted : Accounted cfg.size log.ended s.txFifo.accepted (s.unpushed ++ more) all) :
    (log.observe s.txFifo t.txFifo).Judged cfg.size t.txFifo ∧
      Accounted cfg.size (log.observe s.txFifo t.txFifo).ended t.txFifo.accepted
        (t.unpushed ++ more) all := by
  cases h with
  | push hpop hpush =>
      have hgoes := hjudged.producerStep hsize hlt htx hpush (.push 0)
      refine ⟨hgoes.judged, ?_⟩
      rcases hgoes.ends with ⟨hbatch, haccepted, hended⟩ |
        ⟨a, hbatch, hnone, haccepted, hended, hfair⟩
      · simp only [unpushed, hbatch, haccepted, hended]
        exact haccounted
      · simp only [unpushed, hbatch, List.cons_append] at haccounted
        simp only [unpushed, hnone, List.nil_append, haccepted, hended]
        exact haccounted.ends hfair
  | pop =>
      obtain ⟨hjudged', hended⟩ := hjudged.of_producer (t := s.txFifo) rfl rfl
      exact ⟨hjudged', hended ▸ haccounted⟩
  | ret call hpop hmain =>
      obtain ⟨hjudged', hended⟩ := hjudged.of_producer (t := s.txFifo) rfl rfl
      simp only [unpushed, hmain] at haccounted
      exact ⟨hjudged', hended ▸ haccounted⟩
  | beginPush call push todo hpop hpush hmain =>
      obtain ⟨hjudged', hended⟩ := PushLog.judged_beginCall cfg.size log hpush push
      have hbatch : (s.txFifo.beginCall push).producer.batch = [push.values] := by
        cases push <;> rfl
      have haccepted : (s.txFifo.beginCall push).accepted = s.txFifo.accepted := by
        cases push <;> rfl
      refine ⟨hjudged', ?_⟩
      simp only [unpushed, hmain, hpush] at haccounted
      simp only [unpushed, hbatch, haccepted, hended]
      exact haccounted
  | enable call main cr1 hpop hcall hflushes hdone hmain =>
      obtain ⟨hjudged', hended⟩ := hjudged.of_producer (t := s.txFifo) rfl rfl
      have hmore : main.todo.flatMap StreamOp.batches = [] := by
        rcases hmain with rfl | rfl <;> rfl
      refine ⟨hjudged', ?_⟩
      simp only [unpushed, hdone] at haccounted
      simp only [unpushed, hmore, hended]
      exact haccounted
  | beginPop hpop hmain =>
      obtain ⟨hjudged', hended⟩ := hjudged.of_producer (t := s.txFifo) rfl rfl
      simp only [unpushed, hmain] at haccounted
      exact ⟨hjudged', hended ▸ haccounted⟩

/-- The routine leaves the main program and what it has pushed alone. -/
theorem isr_frame (flags : SrFlags) (data : Nat) (s : UsartStream) :
    (s.isr cfg flags data).main = s.main ∧ (s.isr cfg flags data).events = s.events ∧
      (s.isr cfg flags data).txFifo.producer = s.txFifo.producer ∧
      (s.isr cfg flags data).txFifo.accepted = s.txFifo.accepted ∧
      (s.isr cfg flags data).rxFifo.consumer = s.rxFifo.consumer := by
  have htransmit : ∀ s : UsartStream, (s.isrTransmit cfg).main = s.main ∧
      (s.isrTransmit cfg).events = s.events ∧
      (s.isrTransmit cfg).txFifo.producer = s.txFifo.producer ∧
      (s.isrTransmit cfg).txFifo.accepted = s.txFifo.accepted ∧
      (s.isrTransmit cfg).rxFifo.consumer = s.rxFifo.consumer := by
    intro s
    rcases s.txFifo.atomicPop_cases cfg.size with ⟨-, hpop⟩ | ⟨-, hpop⟩
    · simp only [isrTransmit, hpop, and_self]
    · simp only [isrTransmit, hpop, and_self]
  rw [isr]
  cases flags.txe with
  | false => cases flags.rxne <;> exact ⟨rfl, rfl, rfl, rfl, rfl⟩
  | true =>
      cases flags.rxne with
      | false => exact htransmit s
      | true => exact htransmit (s.isrReceive cfg data)

end UsartStream

/-! What the terminal hands over. -/

namespace TxCall

variable {η : Type u} (execute : List UInt8 → η → η × List OstreamCall)

theorem allOnStream_append (hooks : η) (calls more : List TxCall) :
    allOnStream execute hooks (calls ++ more) =
      ((allOnStream execute (allOnStream execute hooks calls).1 more).1,
        (allOnStream execute hooks calls).2 ++
          (allOnStream execute (allOnStream execute hooks calls).1 more).2) := by
  induction calls generalizing hooks with
  | nil => rfl
  | cons call calls ih => simp only [List.cons_append, allOnStream, ih, List.append_assoc]

/-- The flushes of the terminal push nothing. -/
theorem batches_filter (crlf : Bool) (hooks : η) (calls : List TxCall) :
    (allOnStream execute hooks (calls.filter (· ≠ .flush))).2.flatMap
        (OstreamCall.batches crlf) =
      (allOnStream execute hooks calls).2.flatMap (OstreamCall.batches crlf) := by
  induction calls generalizing hooks with
  | nil => rfl
  | cons call calls ih =>
      by_cases hflush : call = .flush
      · subst hflush
        rw [List.filter_cons_of_neg (by simp), ih]
        rfl
      · rw [List.filter_cons_of_pos (by simpa using hflush)]
        simp only [allOnStream, List.flatMap_append, ih]

end TxCall

/-- A byte adds to the calls of the terminal. -/
theorem Terminal.processChar_calls {echo : Bool} {c : UInt8} {t t' : Terminal}
    (h : t.processChar echo c = .ok t') : t.calls <+: t'.calls := by
  by_cases hcr : c = 13
  · subst hcr
    by_cases hroom : t.cmdIndex < cmdBufSize
    · rw [Terminal.processChar_cr hroom, Except.ok.injEq] at h
      rw [← h]
      simp only [List.append_assoc]
      exact List.prefix_append _ _
    · rw [Terminal.processChar_cr_full hroom] at h
      cases h
  · by_cases hstored : isPrintable c = true ∧ t.cmdIndex < cmdBufSize
    · rw [Terminal.processChar_printable hstored.1 hstored.2, Except.ok.injEq] at h
      rw [← h]
      exact List.prefix_append _ _
    · rw [Terminal.processChar_ignored hcr (not_and.mp hstored), Except.ok.injEq] at h
      rw [← h]

namespace Console

variable {η : Type u} {cfg : ConsoleConfig η} {hooks : η} {log : PushLog UInt8}
  {s t : Console η}

/-- Nothing that has been pushed waits for a flush that is not to come. -/
def Flushed (s : Console η) : Prop :=
  s.todo.getLast? = some .flush ∨ (s.todo = [] ∧
    (s.stream.call = some .flush ∨ windowOpen StreamCall.pushes s.stream.events = true))

structure Inv (cfg : ConsoleConfig η) (hooks : η) (log : PushLog UInt8) (s : Console η) :
    Prop where
  stream : s.stream.Inv cfg.stream
  txFifo : s.stream.txFifo.Inv cfg.stream.size
  reading : s.stream.Reading
  inLoop : s.stream.main = .run .read [.pop] ∨ s.stream.rxFifo.consumer ≠ .idle →
    s.todo = [] ∧ ∃ flushTx, s.main = .loop flushTx
  hooksState : s.hooks = (TxCall.allOnStream cfg.execute hooks s.terminal.calls).1
  judged : log.Judged cfg.stream.size s.stream.txFifo
  pushed : Accounted cfg.stream.size log.ended s.stream.txFifo.accepted (s.unpushed cfg)
    (batches cfg hooks s.terminal.calls)
  flushed : s.main = .idle ∨ s.main = .loop false → s.Flushed

theorem Inv.of_initial (hsize : 0 < cfg.stream.size) (h : s.Initial cfg hooks) :
    s.Inv cfg hooks .start := by
  obtain ⟨hstream, hindex, hcalls, hmain, htodo, hhooks⟩ := h
  have hinv := @UsartStream.Inv.of_initial cfg.stream _ hstream
  obtain ⟨htx, ⟨rxRing, hrx⟩, hidle, -⟩ := hstream
  have hpop : s.stream.rxFifo.consumer = .idle := by rw [hrx]
  exact {
    stream := hinv
    txFifo := .of_initial hsize htx
    reading := fun hbusy => absurd hpop hbusy
    inLoop := by
      rintro (hread | hbusy)
      · rw [hidle] at hread
        cases hread
      · exact absurd hpop hbusy
    hooksState := by rw [hhooks, hcalls]; rfl
    judged := by
      obtain ⟨txRing, htx⟩ := htx
      rw [htx]
      trivial
    pushed := by
      obtain ⟨txRing, htx⟩ := htx
      refine ⟨fun a ha => absurd ha List.not_mem_nil, ?_, ?_⟩
      · rw [htx]
        rfl
      · rw [unpushed, UsartStream.unpushed, htx, hidle, htodo, hcalls]
        rfl
    flushed := fun _ => .inl (by rw [htodo]; rfl) }

theorem move_call {cfg : StreamConfig} {s t : UsartStream} (h : UsartStream.Move cfg s t) :
    (t.call = s.call ∧ t.events = s.events) ∨
    ∃ call, s.call = some call ∧ t.call = none ∧ t.events = s.events ++ [.ret call] := by
  cases h with
  | push => exact .inl ⟨rfl, rfl⟩
  | pop => exact .inl ⟨rfl, rfl⟩
  | ret call hpop hmain => exact .inr ⟨call, by rw [UsartStream.call, hmain], rfl, rfl⟩
  | beginPush call push todo hpop hpush hmain =>
      exact .inl ⟨by simp only [UsartStream.call, hmain], rfl⟩
  | enable call main cr1 hpop hcall hflushes hdone hmain =>
      rw [hcall]
      rcases hmain with rfl | rfl <;> exact .inl ⟨rfl, rfl⟩
  | beginPop hpop hmain => exact .inl ⟨by simp only [UsartStream.call, hmain], rfl⟩

/-- Within a call the stream goes on. -/
theorem Inv.withStream (hsize : 0 < cfg.stream.size) (hlt : cfg.stream.size < 2 ^ 32)
    (h : s.Inv cfg hooks log) (hbusy : s.stream.main ≠ .idle) :
    Inv cfg hooks
      (log.observe s.stream.txFifo (s.stream.mainStep cfg.stream .read).txFifo)
      { s with stream := s.stream.mainStep cfg.stream .read } := by
  have hmove := h.stream.move h.reading hbusy .read
  have hstep : UsartStream.Step cfg.stream s.stream (s.stream.mainStep cfg.stream .read) :=
    .main .read s.stream
  exact {
    stream := h.stream.mainStep .read
    txFifo := h.txFifo.run hsize hlt (UsartStream.step_txFifo h.stream hstep)
    reading := hmove.reading h.reading
    inLoop := by
      have hinLoop := h.inLoop
      generalize s.stream.mainStep cfg.stream .read = stream at hmove
      intro hread
      cases hmove with
      | push hpop => exact hinLoop hread
      | pop hpop => exact hinLoop (.inr hpop)
      | ret call hpop => exact absurd hpop (hread.resolve_left fun hmain => nomatch hmain)
      | beginPush call push todo hpop hpush hmain hcall =>
          have hmain := hread.resolve_right fun hne => hne hpop
          obtain ⟨rfl, -⟩ : call = .read ∧ todo = [.pop] := by simpa using hmain
          cases hcall
      | enable call main cr1 hpop hcall hflushes hdone hmain =>
          have hread := hread.resolve_right fun hne => hne hpop
          rcases hmain with rfl | rfl <;> simp at hread
      | beginPop hpop hmain => exact hinLoop (.inl hmain)
    hooksState := h.hooksState
    judged := (hmove.accounted hsize hlt h.txFifo h.judged h.pushed).1
    pushed := (hmove.accounted hsize hlt h.txFifo h.judged h.pushed).2
    flushed := by
      intro hmain
      rcases h.flushed hmain with hlast | ⟨htodo, hflush⟩
      · exact .inl hlast
      · refine .inr ⟨htodo, ?_⟩
        rcases move_call hmove with ⟨hcall, hevents⟩ | ⟨call, hcall, -, hevents⟩
        · rw [hcall, hevents]
          exact hflush
        · rw [hevents, windowOpen_ret, Bool.or_eq_true]
          refine .inr (hflush.symm.imp_right fun hflush => ?_)
          rw [hcall] at hflush
          rw [Option.some.inj hflush]
          rfl }

/-- The terminal goes on between two pops. -/
theorem Inv.proceed (h : s.Inv cfg hooks log) (htodo : s.todo = [])
    (hread : s.stream.main = .run .read []) (hpop : s.stream.rxFifo.consumer = .idle)
    {terminal : Terminal} (hcalls : s.terminal.calls <+: terminal.calls) {main : TerminalMain}
    (hflushed : main = .idle ∨ main = .loop false →
      (s.proceed cfg terminal main).Flushed) :
    (s.proceed cfg terminal main).Inv cfg hooks log := by
  obtain ⟨more, hmore⟩ := hcalls
  have hdrop : terminal.calls.drop s.terminal.calls.length = more := by
    rw [← hmore, List.drop_left]
  have happend := TxCall.allOnStream_append cfg.execute hooks s.terminal.calls more
  rw [← h.hooksState, hmore] at happend
  exact {
    stream := h.stream
    txFifo := h.txFifo
    reading := h.reading
    inLoop := by
      rintro (hmain | hbusy)
      · have hmain : s.stream.main = .run .read [.pop] := hmain
        rw [hread] at hmain
        simp at hmain
      · exact absurd hpop hbusy
    judged := h.judged
    hooksState := by
      simp only [Console.proceed, hdrop]
      rw [happend]
    pushed := by
      have hpushed := h.pushed
      rw [unpushed, htodo, List.flatMap_nil, List.append_nil] at hpushed
      have hextended := hpushed.extend
        ((TxCall.allOnStream cfg.execute s.hooks more).2.flatMap
          (OstreamCall.batches cfg.stream.crlf))
      simp only [unpushed, Console.proceed, hdrop, batches, happend, List.flatMap_append]
      exact hextended
    flushed := hflushed }

theorem Inv.insideCall (hsize : 0 < cfg.stream.size) (hlt : cfg.stream.size < 2 ^ 32)
    (h : s.Inv cfg hooks log) (hbusy : s.stream.main ≠ .idle) :
    (s.insideCall cfg).Inv cfg hooks
      (log.observe s.stream.txFifo (s.stream.mainStep cfg.stream .read).txFifo) := by
  have hnext := h.withStream hsize hlt hbusy
  unfold Console.insideCall
  cases hresult : s.stream.rxFifo.popResult with
  | none => exact hnext
  | some result =>
      have hpop := Channel.busy_of_popResult hresult
      have hidle := @Channel.consumer_of_popResult _ _ _ cfg.stream.size _ hresult
      have hread := h.reading hpop
      obtain ⟨htodo, flushTx, hloop⟩ := h.inLoop (.inr hpop)
      have hstream := h.stream.mainStep_pop h.reading hpop .read
      rw [hstream] at hnext
      simp only [hloop, hstream]
      cases result with
      | none =>
          refine hnext.proceed htodo hread hidle ?_ fun _ => ?_
          · split
            · exact List.prefix_append _ _
            · exact List.prefix_refl _
          · cases flushTx with
            | true =>
                refine .inl ?_
                simp only [Console.proceed, ↓reduceIte, Terminal.call, List.drop_left]
                rfl
            | false =>
                have hflushed := (hnext.flushed (.inr hloop)).resolve_left (by simp [htodo])
                refine .inr ⟨?_, hflushed.2⟩
                simp only [Console.proceed, Bool.false_eq_true, ↓reduceIte, List.drop_length]
                rfl
      | some c =>
          simp only [Console.afterPop]
          cases hchar : s.terminal.processChar cfg.echo c with
          | error index =>
              exact { hnext with
                inLoop := by
                  rintro (hmain | hpop)
                  · have hmain : s.stream.main = .run .read [.pop] := hmain
                    rw [hread] at hmain
                    simp at hmain
                  · exact absurd hidle hpop
                flushed := fun hmain => by simp at hmain }
          | ok terminal =>
              exact hnext.proceed htodo hread hidle (Terminal.processChar_calls hchar)
                fun hmain => by simp at hmain

/-- Between two calls the next one starts. -/
theorem Inv.start (hsize : 0 < cfg.stream.size) (hlt : cfg.stream.size < 2 ^ 32)
    (h : s.Inv cfg hooks log) (hidle : s.stream.main = .idle) (next : StreamCall)
    (todo : List OstreamCall)
    (hbatches : s.todo.flatMap (OstreamCall.batches cfg.stream.crlf) =
      (next.ops cfg.stream.crlf).flatMap StreamOp.batches ++
        todo.flatMap (OstreamCall.batches cfg.stream.crlf))
    (hread : next = .read → todo = [] ∧ ∃ flushTx, s.main = .loop flushTx)
    (hflushed : s.main = .idle ∨ s.main = .loop false → todo.getLast? = some .flush ∨
      (todo = [] ∧ (next = .flush ∨
        (windowOpen StreamCall.pushes s.stream.events = true ∧ next.pushes = false)))) :
    Inv cfg hooks log
      { s with stream := s.stream.mainStep cfg.stream next, todo := todo } := by
  have hstep : UsartStream.Step cfg.stream s.stream (s.stream.mainStep cfg.stream next) :=
    .main next s.stream
  have hstream := h.stream.mainStep next
  have htx := h.txFifo.run hsize hlt (UsartStream.step_txFifo h.stream hstep)
  have hpop := h.reading.consumer_idle hidle
  rw [h.stream.mainStep_idle h.reading hidle next] at hstream htx ⊢
  exact {
    stream := hstream
    txFifo := htx
    reading := fun hbusy => absurd hpop hbusy
    inLoop := by
      rintro (hmain | hbusy)
      · exact hread (StreamMain.run.inj hmain).1
      · exact absurd hpop hbusy
    hooksState := h.hooksState
    judged := h.judged
    pushed := by
      have hpushed := h.pushed
      rw [unpushed, UsartStream.unpushed, hidle, hbatches] at hpushed
      rw [unpushed, UsartStream.unpushed, List.append_assoc]
      simpa only [StreamMain.todo, List.flatMap_nil, List.append_nil] using hpushed
    flushed := by
      intro hmain
      rcases hflushed hmain with hlast | ⟨htodo, hnext⟩
      · exact .inl hlast
      · refine .inr ⟨htodo, hnext.imp (fun hnext => by rw [hnext]; rfl) fun hnext => ?_⟩
        rw [windowOpen_start, hnext.1, hnext.2]
        rfl }

theorem Inv.nextCall (hsize : 0 < cfg.stream.size) (hlt : cfg.stream.size < 2 ^ 32)
    (h : s.Inv cfg hooks log) (hidle : s.stream.main = .idle) :
    (s.nextCall cfg).Inv cfg hooks log := by
  have hnoCall : s.stream.call ≠ some .flush := by simp [UsartStream.call, hidle]
  unfold Console.nextCall
  cases htodo : s.todo with
  | cons call todo =>
      refine h.start hsize hlt hidle call.call todo ?_ ?_ fun hmain => ?_
      · rw [htodo]
        rfl
      · intro hread
        cases call <;> cases hread
      · have hlast := (h.flushed hmain).resolve_right fun hflushed => by simp [htodo] at hflushed
        rw [htodo] at hlast
        cases todo with
        | nil =>
            obtain rfl : call = .flush := by simpa using hlast
            exact .inr ⟨rfl, .inl rfl⟩
        | cons other todo => exact .inl (by rwa [List.getLast?_cons_cons] at hlast)
  | nil =>
      have hwindow : s.main = .idle ∨ s.main = .loop false →
          windowOpen StreamCall.pushes s.stream.events = true := by
        intro hmain
        have hflushed := (h.flushed hmain).resolve_left (by simp [htodo])
        exact hflushed.2.resolve_left hnoCall
      cases hmain : s.main with
      | idle =>
          exact { h with
            inLoop := by
              intro hread
              obtain ⟨-, flushTx, hloop⟩ := h.inLoop hread
              rw [hmain] at hloop
              cases hloop
            pushed := by
              have hpushed := h.pushed
              rw [unpushed, htodo] at hpushed
              exact hpushed
            flushed := fun _ => .inr ⟨rfl, .inr (hwindow (.inl hmain))⟩ }
      | loop flushTx =>
          have hstart := h.start hsize hlt hidle .read [] (by rw [htodo]; rfl)
            (fun _ => ⟨rfl, flushTx, hmain⟩) fun hloop => .inr ⟨rfl, .inr ⟨hwindow hloop, rfl⟩⟩
          rw [hmain] at hstart
          exact hstart
      | outOfBounds index => exact h

/-- A step that leaves the pushes alone. -/
theorem Inv.unobserved (h : s.Inv cfg hooks log) (ht : t.Inv cfg hooks log)
    (hproducer : t.stream.txFifo.producer = s.stream.txFifo.producer)
    (haccepted : t.stream.txFifo.accepted = s.stream.txFifo.accepted) :
    t.Inv cfg hooks (log.observe s.stream.txFifo t.stream.txFifo) := by
  obtain ⟨hjudged, hended⟩ := h.judged.of_producer hproducer haccepted
  exact { ht with
    judged := hjudged
    pushed := hended ▸ ht.pushed }

theorem nextCall_txFifo (h : s.Inv cfg hooks log) (hidle : s.stream.main = .idle) :
    (s.nextCall cfg).stream.txFifo = s.stream.txFifo := by
  have htx : ∀ next, (s.stream.mainStep cfg.stream next).txFifo = s.stream.txFifo := by
    intro next
    rw [h.stream.mainStep_idle h.reading hidle next]
  unfold nextCall
  split
  · exact htx _
  · split
    · rfl
    · exact htx _
    · rfl

theorem afterPop_stream (flushTx : Bool) (s : Console η) (result : Option UInt8) :
    (s.afterPop cfg flushTx result).stream = s.stream := by
  cases result with
  | none => rfl
  | some c =>
      simp only [afterPop]
      split <;> rfl

theorem insideCall_stream (s : Console η) :
    (s.insideCall cfg).stream = s.stream.mainStep cfg.stream .read := by
  unfold insideCall
  split
  · rfl
  · split
    · exact afterPop_stream _ _ _
    all_goals rfl

theorem Inv.mainStep (hsize : 0 < cfg.stream.size) (hlt : cfg.stream.size < 2 ^ 32)
    (h : s.Inv cfg hooks log) :
    (s.mainStep cfg).Inv cfg hooks
      (log.observe s.stream.txFifo (s.mainStep cfg).stream.txFifo) := by
  unfold Console.mainStep
  split
  · exact h.unobserved h rfl rfl
  all_goals
    split
    · next hidle =>
        have htx := nextCall_txFifo h hidle
        exact h.unobserved (h.nextCall hsize hlt hidle) (by rw [htx]) (by rw [htx])
    all_goals
      next hbusy =>
        rw [insideCall_stream]
        exact h.insideCall hsize hlt (by simp [hbusy])

theorem Inv.isr (hsize : 0 < cfg.stream.size) (hlt : cfg.stream.size < 2 ^ 32)
    (h : s.Inv cfg hooks log) (flags : SrFlags) (data : Nat) :
    (s.isr cfg flags data).Inv cfg hooks log := by
  have hstep : UsartStream.Step cfg.stream s.stream (s.stream.isr cfg.stream flags data) :=
    .isr flags data s.stream
  obtain ⟨hmain, hevents, hproducer, haccepted, hconsumer⟩ :=
    @UsartStream.isr_frame cfg.stream flags data s.stream
  have hcall : (s.stream.isr cfg.stream flags data).call = s.stream.call := by
    rw [UsartStream.call, hmain]
    rfl
  exact {
    stream := h.stream.isr flags data
    txFifo := h.txFifo.run hsize hlt (UsartStream.step_txFifo h.stream hstep)
    reading := fun hbusy => hmain.trans (h.reading (hconsumer ▸ hbusy))
    inLoop := fun hread => h.inLoop (by
      simp only [Console.isr, hmain, hconsumer] at hread
      exact hread)
    hooksState := h.hooksState
    judged := by
      simp only [Console.isr, PushLog.Judged, hproducer, haccepted]
      exact h.judged
    pushed := by
      simp only [Console.isr, unpushed, UsartStream.unpushed, hmain, hproducer, haccepted]
      exact h.pushed
    flushed := by
      simp only [Console.isr, Flushed, hcall, hevents]
      exact h.flushed }

theorem Inv.step (hsize : 0 < cfg.stream.size) (hlt : cfg.stream.size < 2 ^ 32)
    (h : s.Inv cfg hooks log) (hstep : Step cfg s t) :
    t.Inv cfg hooks (log.observe s.stream.txFifo t.stream.txFifo) := by
  cases hstep with
  | main => exact h.mainStep hsize hlt
  | isr flags data =>
      obtain ⟨-, -, hproducer, haccepted, -⟩ :=
        @UsartStream.isr_frame cfg.stream flags data s.stream
      exact h.unobserved (h.isr hsize hlt flags data) hproducer haccepted

theorem exists_inv (hsize : 0 < cfg.stream.size) (hlt : cfg.stream.size < 2 ^ 32)
    (h : Reachable (Initial cfg hooks) (Step cfg) s) : ∃ log, s.Inv cfg hooks log := by
  let inv (s : Console η) : Prop := ∃ log, s.Inv cfg hooks log
  have hstart : ∀ s, Initial cfg hooks s → inv s := fun s hs => ⟨_, Inv.of_initial hsize hs⟩
  have hstep : ∀ s t, inv s → Step cfg s t → inv t := by
    rintro s t ⟨log, hs⟩ hstep
    exact ⟨_, hs.step hsize hlt hstep⟩
  exact h.invariant hstart hstep

/-! The console seen from the stream and from the terminal. -/

theorem mainStep_stream (s : Console η) : (s.mainStep cfg).stream = s.stream ∨
    ∃ next, (s.mainStep cfg).stream = s.stream.mainStep cfg.stream next := by
  have hnext : (s.nextCall cfg).stream = s.stream ∨
      ∃ next, (s.nextCall cfg).stream = s.stream.mainStep cfg.stream next := by
    unfold nextCall
    split
    · exact .inr ⟨_, rfl⟩
    · split
      · exact .inl rfl
      · exact .inr ⟨_, rfl⟩
      · exact .inl rfl
  unfold mainStep
  split
  · exact .inl rfl
  all_goals
    split
    · exact hnext
    all_goals exact .inr ⟨_, insideCall_stream s⟩

theorem reachable_stream (hsize : 0 < cfg.stream.size) (hlt : cfg.stream.size < 2 ^ 32)
    (h : Reachable (Initial cfg hooks) (Step cfg) s) :
    Reachable UsartStream.Initial (UsartStream.Step cfg.stream) s.stream := by
  refine h.simulation Console.stream (fun _ => exists_inv hsize hlt)
    (fun _ hs => hs.1) fun s t _ hstep => ?_
  cases hstep with
  | main =>
      rcases @mainStep_stream _ cfg s with heq | ⟨next, heq⟩
      · rw [heq]
      · rw [heq]
        exact .single (.main next s.stream)
  | isr flags data => exact .single (.isr flags data s.stream)

/-- The terminal and its fifo. -/
def device (s : Console η) : TerminalDevice := ⟨s.terminal, s.stream.rxFifo, s.main⟩

variable {size : Nat} {echo : Bool}

theorem nextCall_device (h : s.Inv cfg hooks log) (hidle : s.stream.main = .idle) :
    Relation.ReflTransGen (TerminalDevice.Step size echo) s.device (s.nextCall cfg).device := by
  have hrx : ∀ next, (s.stream.mainStep cfg.stream next).rxFifo = s.stream.rxFifo := by
    intro next
    rw [h.stream.mainStep_idle h.reading hidle next]
  unfold nextCall
  cases htodo : s.todo with
  | cons call todo =>
      simp only [device, hrx]
      exact .refl
  | nil =>
      cases hmain : s.main with
      | idle =>
          have hcall := @TerminalDevice.Step.main size echo s.device
          rw [TerminalDevice.mainStep, device, hmain] at hcall
          rw [device, hmain]
          exact .single hcall
      | loop flushTx =>
          simp only [device, hrx, hmain]
          exact .refl
      | outOfBounds index => exact .refl

/-- What a step within a call does to the receive fifo, `process_input()` has asked for. -/
theorem insideCall_device (h : s.Inv cfg hooks log) (hbusy : s.stream.main ≠ .idle) :
    Relation.ReflTransGen (TerminalDevice.Step cfg.stream.size cfg.echo) s.device
      (s.insideCall cfg).device := by
  have hmove := h.stream.move h.reading hbusy .read
  unfold insideCall
  cases hresult : s.stream.rxFifo.popResult with
  | none =>
      have hpop : ∀ flushTx, s.main = .loop flushTx →
          TerminalDevice.Step cfg.stream.size cfg.echo s.device
            ⟨s.terminal, s.stream.rxFifo.consumerStep cfg.stream.size, s.main⟩ := by
        intro flushTx hloop
        have hstep := @TerminalDevice.step_of_popResult_none cfg.stream.size cfg.echo s.terminal
          s.stream.rxFifo flushTx hresult
        rw [device, hloop]
        exact hstep
      have hinLoop := h.inLoop
      simp only [device]
      generalize s.stream.mainStep cfg.stream .read = stream at hmove
      cases hmove with
      | pop hbusy =>
          obtain ⟨-, flushTx, hloop⟩ := hinLoop (.inr hbusy)
          exact .single (hpop flushTx hloop)
      | beginPop hidle hmain =>
          obtain ⟨-, flushTx, hloop⟩ := hinLoop (.inl hmain)
          exact .single (hpop flushTx hloop)
      | push | ret | beginPush | enable => exact .refl
  | some result =>
      have hpop := Channel.busy_of_popResult hresult
      obtain ⟨-, flushTx, hloop⟩ := h.inLoop (.inr hpop)
      have hstep := @TerminalDevice.Step.main cfg.stream.size cfg.echo s.device
      have hstream := h.stream.mainStep_pop h.reading hpop .read
      simp only [TerminalDevice.mainStep, device, hloop, hresult] at hstep
      simp only [hloop, hstream]
      rw [device, hloop]
      cases result with
      | none => exact .single hstep
      | some c =>
          simp only [afterPop]
          cases hchar : s.terminal.processChar cfg.echo c with
          | error index =>
              simp only [hchar] at hstep
              exact .single hstep
          | ok terminal =>
              simp only [hchar] at hstep
              exact .single hstep

theorem step_device (h : s.Inv cfg hooks log) (hstep : Step cfg s t) :
    Relation.ReflTransGen (TerminalDevice.Step cfg.stream.size cfg.echo) s.device t.device := by
  cases hstep with
  | main =>
      unfold mainStep
      split
      · exact .refl
      all_goals
        split
        · next hidle => exact nextCall_device h hidle
        all_goals
          next hbusy => exact insideCall_device h (by simp [hbusy])
  | isr flags data =>
      have hreceive : Relation.ReflTransGen (TerminalDevice.Step cfg.stream.size cfg.echo)
          s.device ⟨s.terminal, (s.stream.isrReceive cfg.stream data).rxFifo, s.main⟩ :=
        .single (.isr (UInt8.ofNat data) s.device)
      simp only [isr, device, UsartStream.isr]
      cases flags.rxne with
      | false =>
          split
          · rw [UsartStream.isrTransmit_rxFifo]
            exact .refl
          · exact .refl
      | true =>
          split
          · rw [UsartStream.isrTransmit_rxFifo]
            exact hreceive
          · exact hreceive

theorem reachable_device (hsize : 0 < cfg.stream.size) (hlt : cfg.stream.size < 2 ^ 32)
    (h : Reachable (Initial cfg hooks) (Step cfg) s) :
    Reachable TerminalDevice.Initial (TerminalDevice.Step cfg.stream.size cfg.echo)
      s.device := by
  refine h.simulation device (fun _ => exists_inv hsize hlt) (fun s hs => ?_)
    fun _ _ ⟨_, hs⟩ => step_device hs
  obtain ⟨hstream, hindex, hcalls, hmain, -⟩ := hs
  exact ⟨hindex, hcalls, hstream.2.1, hmain⟩

/-- What the terminal has called for is what the input asks for. -/
theorem output_eq (hholds : s.terminal.Holds cfg.echo s.stream.rxFifo.popped) :
    batches cfg hooks s.terminal.calls = output cfg hooks s.stream.rxFifo.popped := by
  rw [output, ← hholds.calls, batches, batches, TxCall.batches_filter]

/-- When `process_input()` has returned and its flush is done, all is pushed, and nothing
waits without the interrupt. -/
theorem Inv.at_rest (h : s.Inv cfg hooks log) (hmain : s.main = .idle) (htodo : s.todo = [])
    (hidle : s.stream.main = .idle) :
    s.unpushed cfg = [] ∧ (s.stream.TxNonempty → s.stream.TxInterruptEnabled) := by
  constructor
  · have hproducer : s.stream.txFifo.producer = .idle := by
      have hconsistent := h.stream.main
      simpa only [UsartStream.MainConsistent, hidle] using hconsistent
    rw [unpushed, UsartStream.unpushed, hproducer, hidle, htodo]
    rfl
  · have hflushed := (h.flushed (.inl hmain)).resolve_left (by simp [htodo])
    have hopen := hflushed.2.resolve_left (by simp [UsartStream.call, hidle])
    exact h.stream.wakeup (.inl hopen)

end Console

namespace ObservedConsole

variable {η : Type u} {cfg : ConsoleConfig η} {hooks : η} {o : ObservedConsole η}

theorem inv_of_reachable (hsize : 0 < cfg.stream.size) (hlt : cfg.stream.size < 2 ^ 32)
    (h : Reachable (Initial cfg hooks) (Step cfg) o) : o.console.Inv cfg hooks o.pushes := by
  let inv (o : ObservedConsole η) : Prop := o.console.Inv cfg hooks o.pushes
  have hstart : ∀ o, Initial cfg hooks o → inv o := by
    rintro o ⟨hconsole, hpushes⟩
    simp only [inv, hpushes]
    exact .of_initial hsize hconsole
  have hstep : ∀ o p, inv o → Step cfg o p → inv p := by
    rintro o p ho ⟨t, ht⟩
    exact ho.step hsize hlt ht
  exact h.invariant hstart hstep

theorem reachable_console (h : Reachable (Initial cfg hooks) (Step cfg) o) :
    Reachable (Console.Initial cfg hooks) (Console.Step cfg) o.console := by
  refine h.simulation console (fun _ _ => trivial) (fun _ hinit => hinit.1) ?_
  rintro o p - ⟨t, ht⟩
  exact .single ht

end ObservedConsole

end OpenMptl
