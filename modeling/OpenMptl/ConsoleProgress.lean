/-
The console left alone by its interrupt.  Each access brings the main program closer to the
end of the push, of the call on the stream, of the calls of the terminal, or of the input;
so `process_input()` returns, and has taken all that had come in.
-/
import OpenMptl.ConsoleRun
import OpenMptl.RegvalTest

namespace OpenMptl

universe u

/-! What is left of a call on the stream: no more accesses than that. -/

section Work

variable {α : Type u} [Zero α]

def Producer.work : Producer α → Nat
  | .idle => 0
  | .pushCompare _ _ => 3
  | .pushWrite _ _ _ => 2
  | .pushStore _ _ => 1
  | .pushsLoad src _ => 2 * src.values.length + 3
  | .pushsLoop src _ _ i => 2 * (src.values.length - i) + 2
  | .pushsWrite src _ _ i _ => 2 * (src.values.length - i) + 1
  | .pushsStore _ _ => 1

def Consumer.work : Consumer α → Nat
  | .idle => 0
  | .popCompare _ => 3
  | .popRead _ => 2
  | .popStore _ _ => 1

def StreamOp.work : StreamOp → Nat
  | .fifo push => 2 * push.values.length + 4
  | .enableTxInterrupt => 2
  | .pop => 4

def StreamMain.work : StreamMain → Nat
  | .idle => 0
  | .run _ todo => 1 + (todo.map StreamOp.work).sum
  | .enabling _ todo _ => 2 + (todo.map StreamOp.work).sum

def UsartStream.work (s : UsartStream) : Nat :=
  s.main.work + s.txFifo.producer.work + s.rxFifo.consumer.work

theorem Channel.Inv.work_producerStep [DecidableEq α] {size : Nat} {s : Channel α}
    (h : s.Inv size) (hbusy : s.producer ≠ .idle) (call : PushCall α) :
    (s.producerStep size call).producer.work < s.producer.work := by
  have hp := h.producer
  unfold Channel.producerStep
  cases hpc : s.producer with
  | idle => exact absurd hpc hbusy
  | pushCompare data writeIndex =>
      dsimp only
      split
      · exact Nat.zero_lt_succ 2
      · exact Nat.lt_succ_self 2
  | pushWrite data writeIndex nextWriteIndex => exact Nat.lt_succ_self 1
  | pushStore data nextWriteIndex => exact Nat.zero_lt_one
  | pushsLoad src writeIndex => exact Nat.lt_succ_self _
  | pushsLoop src writeIndex readIndex i =>
      dsimp only
      split
      · split
        · exact Nat.zero_lt_succ _
        · exact Nat.lt_succ_self _
      · simp only [Producer.work]
        omega
  | pushsWrite src writeIndex readIndex i nextWriteIndex =>
      rw [hpc] at hp
      obtain ⟨-, -, hi, -⟩ := hp
      simp only [Producer.work]
      omega
  | pushsStore src writeIndex => exact Nat.zero_lt_one

theorem Channel.work_consumerStep (size : Nat) {s : Channel α} (hbusy : s.consumer ≠ .idle) :
    (s.consumerStep size).consumer.work < s.consumer.work := by
  unfold Channel.consumerStep
  cases hpc : s.consumer with
  | idle => exact absurd hpc hbusy
  | popCompare writeIndex =>
      dsimp only
      split
      · exact Nat.zero_lt_succ 2
      · exact Nat.lt_succ_self 2
  | popRead readIndex => exact Nat.lt_succ_self 1
  | popStore readIndex data => exact Nat.zero_lt_one

namespace Channel

/-- Only a `pop()` that has just begun may find the fifo empty with its next access. -/
theorem loaded_of_popResult {s : Channel α} {size : Nat}
    (h : (s.consumerStep size).popResult = some none) :
    s.consumer = .idle ∧ s.ring.readIndex = s.ring.writeIndex := by
  obtain ⟨writeIndex, hconsumer, hempty⟩ := popCompare_of_popResult h
  have hidle := consumer_of_popCompare hconsumer
  simp only [consumerStep, hidle, Consumer.popCompare.injEq] at hconsumer hempty
  exact ⟨hidle, hempty.trans hconsumer.symm⟩

/-- A `pop()` goes on until it has a result. -/
theorem busy_consumerStep {s : Channel α} {size : Nat} (hpop : s.consumer ≠ .idle)
    (h : s.popResult = none) : (s.consumerStep size).consumer ≠ .idle := by
  unfold popResult at h
  unfold consumerStep
  cases hpc : s.consumer with
  | idle => exact absurd hpc hpop
  | popCompare writeIndex =>
      simp only [hpc] at h
      split at h
      · cases h
      · next hdata => simp [hdata]
  | popRead readIndex => simp
  | popStore readIndex data => simp [hpc] at h

end Channel

end Work

theorem Channel.work_beginCall (s : Channel UInt8) (push : PushCall UInt8) :
    (s.beginCall push).producer.work < (StreamOp.fifo push).work := by
  cases push with
  | push data => exact (by decide : 3 < 2 * 1 + 4)
  | pushs src => exact Nat.lt_succ_self _

/-- Each access within a call brings its end closer. -/
theorem UsartStream.work_mainStep {cfg : StreamConfig} {s : UsartStream}
    (htx : s.txFifo.Inv cfg.size) (hbusy : s.main ≠ .idle) (next : StreamCall) :
    (s.mainStep cfg next).work < s.work := by
  unfold UsartStream.mainStep
  split
  case h_1 hpush =>
      split
      case h_1 hpop =>
          unfold UsartStream.mainNext
          split
          case h_1 hpc => exact absurd hpc hbusy
          case h_2 call hpc =>
              simp only [work, hpc, StreamMain.work]
              omega
          case h_3 call push todo hpc =>
              have hbegin := s.txFifo.work_beginCall push
              simp only [work, hpc, StreamMain.work, List.map_cons, List.sum_cons]
              omega
          case h_4 call todo hpc =>
              split
              all_goals
                simp only [work, hpc, StreamMain.work, List.map_cons, List.sum_cons,
                  StreamOp.work]
                omega
          case h_5 call todo hpc =>
              have hnext : (s.rxFifo.consumerStep cfg.size).consumer =
                  .popCompare s.rxFifo.ring.writeIndex := by
                simp only [Channel.consumerStep, hpop]
              simp only [work, hpc, hpop, hnext, StreamMain.work, List.map_cons, List.sum_cons,
                StreamOp.work, Consumer.work]
              omega
          case h_6 call todo cr1 hpc =>
              simp only [work, hpc, StreamMain.work]
              omega
      all_goals
        next hpc =>
          have hpop := @Channel.work_consumerStep _ _ cfg.size s.rxFifo (by simp [hpc])
          simp only [work]
          omega
  all_goals
    next hpc =>
      have hpush := htx.work_producerStep (by simp [hpc]) (.push 0)
      simp only [work]
      omega

/-- A call that is to be made. -/
def OstreamCall.work (crlf : Bool) (call : OstreamCall) : Nat :=
  2 + ((call.call.ops crlf).map StreamOp.work).sum

theorem OstreamCall.call_ne_read (call : OstreamCall) : call.call ≠ .read := by
  cases call <;> exact (nomatch ·)

namespace Console

variable {η : Type u} {cfg : ConsoleConfig η} {hooks : η} {s t : Console η}

/-- The bytes that have come in and are not taken. -/
def unread (s : Console η) : Nat :=
  s.stream.rxFifo.accepted.length - s.stream.rxFifo.popped.length

/-- A `pop()` is under way, or comes next. -/
def popping (s : Console η) : Bool :=
  match s.stream.rxFifo.consumer with
  | .idle =>
      match s.stream.main with
      | .run .read [.pop] => true
      | _ => false
  | .popCompare _ | .popRead _ | .popStore _ _ => true

/-- How far `process_input()` is from its end.  A `pop()` that has loaded the write index
before the last bytes came in may still fail, and the next call takes them. -/
def stage (s : Console η) : Nat :=
  match s.main with
  | .outOfBounds _ => 0
  | .idle => if s.unread = 0 then 0 else 3
  | .loop _ =>
      if s.stream.rxFifo.popResult = some none ∧ s.unread ≠ 0 then 4
      else if s.popping then 1 else 2

def work (cfg : ConsoleConfig η) (s : Console η) : Nat :=
  s.stream.work + (s.todo.map (OstreamCall.work cfg.stream.crlf)).sum

/-- Nothing is to be done, and nothing has come in. -/
def AtRest (s : Console η) : Prop :=
  s.main = .idle ∧ s.todo = [] ∧ s.stream.main = .idle ∧
    s.stream.rxFifo.popped = s.stream.rxFifo.accepted

/-- The input comes first, then the stage, then the accesses. -/
def Closer (cfg : ConsoleConfig η) (t s : Console η) : Prop :=
  t.unread < s.unread ∨ t.unread = s.unread ∧
    (t.stage < s.stage ∨ t.stage = s.stage ∧ t.work cfg < s.work cfg)

theorem closer_wellFounded (cfg : ConsoleConfig η) : WellFounded (Closer cfg) := by
  refine Subrelation.wf (r := InvImage (Prod.Lex (· < ·) (Prod.Lex (· < ·) (· < ·)))
    fun s : Console η => (s.unread, s.stage, s.work cfg)) ?_ (InvImage.wf _
      (Prod.lex Nat.lt_wfRel (Prod.lex Nat.lt_wfRel Nat.lt_wfRel)).wf)
  intro t s h
  rcases h with h | ⟨hunread, h | ⟨hstage, h⟩⟩
  · exact .left _ _ h
  · rw [InvImage, hunread]
    exact .right _ (.left _ _ h)
  · rw [InvImage, hunread, hstage]
    exact .right _ (.right _ h)

variable {log : PushLog UInt8}

theorem unread_eq_zero_iff (h : s.stream.rxFifo.Inv cfg.stream.size) :
    s.unread = 0 ↔ s.stream.rxFifo.popped = s.stream.rxFifo.accepted := by
  have hle := h.popped_le
  constructor
  · intro hnone
    rw [unread] at hnone
    exact h.order.eq_of_length (by omega)
  · intro heq
    rw [unread, heq, Nat.sub_self]

theorem stage_of_idle (hmain : s.main = .idle) :
    s.stage = if s.unread = 0 then 0 else 3 := by
  rw [stage, hmain]

theorem stage_of_loop {flushTx : Bool} (hmain : s.main = .loop flushTx)
    (hresult : s.stream.rxFifo.popResult = some none → s.unread = 0) {pops : Bool}
    (hpopping : s.popping = pops) : s.stage = if pops then 1 else 2 := by
  rw [stage, hmain, ← hpopping]
  exact if_neg fun h => h.2 (hresult h.1)

theorem stage_of_stale {flushTx : Bool} (hmain : s.main = .loop flushTx)
    (hresult : s.stream.rxFifo.popResult = some none) (hunread : s.unread ≠ 0) :
    s.stage = 4 := by
  rw [stage, hmain]
  exact if_pos ⟨hresult, hunread⟩

theorem stage_congr (hmain : t.main = s.main) (hunread : t.unread = s.unread)
    (hs : s.stream.rxFifo.popResult = some none → s.unread = 0)
    (ht : t.stream.rxFifo.popResult = some none → t.unread = 0)
    (hpopping : t.popping = s.popping) : t.stage = s.stage := by
  cases hpc : s.main with
  | idle => rw [stage_of_idle hpc, stage_of_idle (hmain.trans hpc), hunread]
  | outOfBounds index => rw [stage, stage, hmain, hpc]
  | loop flushTx =>
      rw [stage_of_loop hpc hs rfl, stage_of_loop (hmain.trans hpc) ht hpopping]

theorem popping_of_busy (hpop : s.stream.rxFifo.consumer ≠ .idle) : s.popping = true := by
  rw [popping]
  split
  · next hidle => exact absurd hidle hpop
  all_goals rfl

theorem popping_of_call (hpop : s.stream.rxFifo.consumer = .idle)
    (hcall : s.stream.main ≠ .run .read [.pop]) : s.popping = false := by
  rw [popping, hpop]
  dsimp only
  split
  · next hmain => exact absurd hmain hcall
  · rfl

/-- The next call on the stream brings the end of the todo list closer, or of the input. -/
theorem Inv.closer_nextCall (h : s.Inv cfg hooks log) (hidle : s.stream.main = .idle)
    (hbounds : ∀ index, s.main ≠ .outOfBounds index)
    (hrest : s.main = .idle → s.todo = [] → s.unread ≠ 0) :
    Closer cfg (s.nextCall cfg) s := by
  have hnext := h.stream.mainStep_idle h.reading hidle
  have hpop := h.reading.consumer_idle hidle
  have hresult : s.stream.rxFifo.popResult = some none → s.unread = 0 :=
    fun hempty => absurd hpop (Channel.busy_of_popResult hempty)
  have hpopping : s.popping = false := popping_of_call hpop (by simp [hidle])
  unfold Console.nextCall
  cases htodo : s.todo with
  | cons call todo =>
      dsimp only
      rw [hnext]
      refine .inr ⟨rfl, .inr ⟨stage_congr rfl rfl hresult hresult ?_, ?_⟩⟩
      · rw [hpopping]
        refine popping_of_call hpop fun hread => ?_
        exact call.call_ne_read (StreamMain.run.inj hread).1
      · simp only [work, UsartStream.work, htodo, hidle, StreamMain.work, List.map_cons,
          List.sum_cons, OstreamCall.work]
        omega
  | nil =>
      cases hmain : s.main with
      | idle =>
          dsimp only
          refine .inr ⟨rfl, .inl ?_⟩
          let t : Console η := { s with main := .loop false, todo := [] }
          calc t.stage = 2 := @stage_of_loop _ t false rfl hresult _ hpopping
            _ < 3 := by decide
            _ = s.stage := by rw [stage_of_idle hmain, if_neg (hrest hmain htodo)]
      | loop flushTx =>
          dsimp only
          rw [hnext]
          refine .inr ⟨rfl, .inl ?_⟩
          let t : Console η := { s with
            stream := { s.stream with
              main := .run .read (StreamCall.read.ops cfg.stream.crlf)
              events := s.stream.events ++ [.start .read] }
            main := .loop flushTx
            todo := [] }
          have hbegun : t.popping = true := by
            simp only [t, popping, hpop]
            rfl
          calc t.stage = 1 := @stage_of_loop _ t flushTx rfl hresult _ hbegun
            _ < 2 := by decide
            _ = s.stage := (stage_of_loop hmain hresult hpopping).symm
      | outOfBounds index => exact absurd hmain (hbounds index)

/-- Within a call on the stream, while `pop()` does not return. -/
theorem Inv.closer_move (h : s.Inv cfg hooks log) (hrx : s.stream.rxFifo.Inv cfg.stream.size)
    (hbusy : s.stream.main ≠ .idle) (hresult : s.stream.rxFifo.popResult = none) :
    Closer cfg { s with stream := s.stream.mainStep cfg.stream .read } s := by
  have hwork := UsartStream.work_mainStep h.txFifo hbusy .read
  have hmove := h.stream.move h.reading hbusy .read
  have hs : s.stream.rxFifo.popResult = some none → s.unread = 0 := fun hempty => by
    rw [hresult] at hempty
    cases hempty
  have hpopped := s.stream.rxFifo.consumerStep_popped cfg.stream.size
  have haccepted := (s.stream.rxFifo.consumerStep_producer cfg.stream.size).2
  rw [hresult, Option.join_none, Option.toList_none, List.append_nil] at hpopped
  generalize s.stream.mainStep cfg.stream .read = stream at hwork hmove
  suffices hsame : unread { s with stream := stream } = s.unread ∧
      stage { s with stream := stream } = s.stage by
    refine .inr ⟨hsame.1, .inr ⟨hsame.2, ?_⟩⟩
    simp only [work]
    omega
  cases hmove with
  | push hpop hpush => exact ⟨rfl, rfl⟩
  | pop hpop =>
      have hunread : unread { s with stream := { s.stream with
          rxFifo := s.stream.rxFifo.consumerStep cfg.stream.size } } = s.unread := by
        simp only [unread, hpopped, haccepted]
      refine ⟨hunread, stage_congr rfl hunread hs (fun hempty => ?_) ?_⟩
      · exact absurd (Channel.loaded_of_popResult hempty).1 hpop
      · rw [popping_of_busy hpop]
        exact popping_of_busy (Channel.busy_consumerStep hpop hresult)
  | ret call hpop hmain =>
      refine ⟨rfl, stage_congr rfl rfl hs hs ?_⟩
      rw [@popping_of_call _ s hpop (by simp [hmain])]
      exact popping_of_call hpop (by simp)
  | beginPush call push todo hpop hpush hmain hcall =>
      refine ⟨rfl, stage_congr rfl rfl hs hs ?_⟩
      have hread : call ≠ .read := fun heq => by simp [heq, StreamCall.pushes] at hcall
      rw [@popping_of_call _ s hpop (by simp [hmain])]
      exact popping_of_call hpop (by simp [hread])
  | enable call main cr1 hpop hcall hflushes hdone hmain =>
      refine ⟨rfl, stage_congr rfl rfl hs hs ?_⟩
      have hread : call ≠ .read := fun heq => by simp [heq, StreamCall.flushes] at hflushes
      rw [@popping_of_call _ s hpop fun heq => hread ?_]
      · exact popping_of_call hpop (by rcases hmain with rfl | rfl <;> simp)
      · rw [UsartStream.call, heq] at hcall
        exact (Option.some.inj hcall).symm
  | beginPop hpop hmain =>
      have hunread : unread { s with stream := { s.stream with
          main := .run .read []
          rxFifo := s.stream.rxFifo.consumerStep cfg.stream.size } } = s.unread := by
        simp only [unread, hpopped, haccepted]
      refine ⟨hunread, stage_congr rfl hunread hs (fun hempty => ?_) ?_⟩
      · rw [hunread, unread_eq_zero_iff hrx]
        exact hrx.popped_eq_of_compare hrx rfl (Channel.loaded_of_popResult hempty).2
      · have hbegun : s.popping = true := by simp only [popping, hpop, hmain]
        rw [hbegun]
        exact popping_of_busy (by simp [Channel.consumerStep, hpop])

/-- A step within a call on the stream: an access of it, or the return of `pop()`. -/
theorem Inv.closer_insideCall (h : s.Inv cfg hooks log) (hsize : 0 < cfg.stream.size)
    (hlt : cfg.stream.size < 2 ^ 32) (hrx : s.stream.rxFifo.Inv cfg.stream.size)
    (hbusy : s.stream.main ≠ .idle) : Closer cfg (s.insideCall cfg) s := by
  cases hresult : s.stream.rxFifo.popResult with
  | none =>
      have hmove := h.closer_move hrx hbusy hresult
      simpa only [Console.insideCall, hresult] using hmove
  | some result =>
      have hpop := Channel.busy_of_popResult hresult
      obtain ⟨-, flushTx, hloop⟩ := h.inLoop (.inr hpop)
      have hstream := @insideCall_stream _ cfg s
      rw [h.stream.mainStep_pop h.reading hpop .read] at hstream
      have hpopped := s.stream.rxFifo.consumerStep_popped cfg.stream.size
      have haccepted := (s.stream.rxFifo.consumerStep_producer cfg.stream.size).2
      have hle := (hrx.consumerStep hsize hlt).popped_le
      cases result with
      | none =>
          rw [hresult, Option.join_some, Option.toList_none, List.append_nil] at hpopped
          have hunread : (s.insideCall cfg).unread = s.unread := by
            simp only [unread, hstream, hpopped, haccepted]
          have hmain : (s.insideCall cfg).main = .idle := by
            simp only [Console.insideCall, hresult, hloop, afterPop, Console.proceed]
          refine .inr ⟨hunread, .inl ?_⟩
          rw [stage_of_idle hmain, hunread]
          by_cases hnone : s.unread = 0
          · rw [if_pos hnone, stage_of_loop hloop (fun _ => hnone) (popping_of_busy hpop)]
            decide
          · rw [if_neg hnone, stage_of_stale hloop hresult hnone]
            decide
      | some c =>
          rw [hresult, Option.join_some, Option.toList_some] at hpopped
          refine .inl ?_
          rw [haccepted, hpopped, List.length_append, List.length_singleton] at hle
          simp only [unread, hstream, hpopped, haccepted, List.length_append,
            List.length_singleton]
          omega

theorem closer_mainStep (hsize : 0 < cfg.stream.size) (hlt : cfg.stream.size < 2 ^ 32)
    (h : Reachable (Initial cfg hooks) (Step cfg) s)
    (hfit : Terminal.LinesFit s.stream.rxFifo.accepted) (hrest : ¬ s.AtRest) :
    Closer cfg (s.mainStep cfg) s := by
  obtain ⟨log, hinv⟩ := exists_inv hsize hlt h
  have hdevice := TerminalDevice.inv_of_reachable hsize hlt (reachable_device hsize hlt h)
  have hrx : s.stream.rxFifo.Inv cfg.stream.size := hdevice.rx
  obtain ⟨rest, haccepted⟩ := hrx.order
  have hbounds : s.device.InBounds :=
    hdevice.inBounds_iff.mpr (Terminal.LinesFit.of_append rest (haccepted ▸ hfit))
  unfold Console.mainStep
  split
  · next index hmain => exact absurd hmain (hbounds index)
  all_goals
    split
    · next hidle =>
        refine hinv.closer_nextCall hidle hbounds fun hmain htodo hnone => hrest ?_
        exact ⟨hmain, htodo, hidle, (unread_eq_zero_iff hrx).mp hnone⟩
    all_goals
      next hbusy => exact hinv.closer_insideCall hsize hlt hrx (by simp [hbusy])

theorem mainStep_accepted (s : Console η) :
    (s.mainStep cfg).stream.rxFifo.accepted = s.stream.rxFifo.accepted := by
  rcases @mainStep_stream _ cfg s with hstream | ⟨next, hstream⟩
  · rw [hstream]
  · rw [hstream]
    rcases UsartStream.mainStep_rxFifo next with hrx | hrx
    · rw [hrx]
    · rw [hrx, (s.stream.rxFifo.consumerStep_producer cfg.stream.size).2]

/-- Left alone, the main program takes all that has come in and does all that it asks for. -/
theorem exists_atRest (hsize : 0 < cfg.stream.size) (hlt : cfg.stream.size < 2 ^ 32)
    (h : Reachable (Initial cfg hooks) (Step cfg) s)
    (hfit : Terminal.LinesFit s.stream.rxFifo.accepted) :
    ∃ n, ((mainStep cfg)^[n] s).AtRest ∧
      ((mainStep cfg)^[n] s).stream.rxFifo.accepted = s.stream.rxFifo.accepted := by
  induction s using (closer_wellFounded cfg).induction with
  | _ s ih =>
      by_cases hrest : s.AtRest
      · exact ⟨0, hrest, rfl⟩
      · have hsame := @mainStep_accepted _ cfg s
        obtain ⟨n, hend, haccepted⟩ := ih _ (closer_mainStep hsize hlt h hfit hrest)
          (h.next (.main s)) (by rw [hsame]; exact hfit)
        rw [← Function.iterate_succ_apply] at hend haccepted
        exact ⟨n + 1, hend, haccepted.trans hsame⟩

end Console

namespace ConsoleTest

def cfg : ConsoleConfig Unit where
  stream := UsartStreamTest.cfg
  echo := true
  execute := TerminalHooks.commands RegvalTest.host [] fun _ st => (st, [.endl])
  welcome := .ofBytes [35, 32]

def start : Console Unit where
  stream := UsartStreamTest.start
  terminal := TerminalDevice.start.terminal
  main := .idle
  todo := [.puts cfg.welcome, .flush]
  hooks := ()

theorem start_initial : start.Initial cfg () :=
  ⟨UsartStreamTest.start_initial, rfl, rfl, rfl, rfl, rfl⟩

def observed : ObservedConsole Unit := ⟨start, .start⟩

/-- The main program makes `n` steps on its own. -/
def mainSteps : Nat → ObservedConsole Unit → ObservedConsole Unit
  | 0, o => o
  | n + 1, o => mainSteps n (o.step (o.console.mainStep cfg))

theorem mainSteps_reachable (n : Nat) {o : ObservedConsole Unit}
    (h : Reachable (ObservedConsole.Initial cfg ()) (ObservedConsole.Step cfg) o) :
    Reachable (ObservedConsole.Initial cfg ()) (ObservedConsole.Step cfg) (mainSteps n o) := by
  induction n generalizing o with
  | zero => exact h
  | succ n ih => exact ih (h.next (.of o _ (.main o.console)))

/-- The welcome is printed and a letter comes in. -/
def received : ObservedConsole Unit :=
  let o := mainSteps 16 observed
  o.step (o.console.isr cfg ⟨true, true⟩ 97)

/-- The letter is echoed after the welcome. -/
def echoed : ObservedConsole Unit := mainSteps 22 received

end ConsoleTest

end OpenMptl
