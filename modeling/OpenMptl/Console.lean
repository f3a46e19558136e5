/-
The terminal on its USART.  The main program prints its welcome and then calls
`process_input()` again and again; all it does to the stream goes through the two fifos
access by access, and between any two of its steps the interrupt routine may run.
-/
import OpenMptl.PushLog
import OpenMptl.TerminalHooks
import OpenMptl.TerminalRun
import OpenMptl.UsartStreamSafety

namespace OpenMptl

universe u

theorem zero_notMem_takeWhile (s : List UInt8) : 0 ∉ s.takeWhile (· ≠ 0) := by
  intro hmem
  have hall : ∀ c ∈ s.takeWhile (· ≠ 0), decide (c ≠ 0) = true :=
    List.all_eq_true.mp List.all_takeWhile
  exact of_decide_eq_true (hall 0 hmem) rfl

/-- The bytes at an address as a C string. -/
def CString.ofBytes (s : List UInt8) : CString := ⟨s.takeWhile (· ≠ 0), zero_notMem_takeWhile s⟩

theorem CString.ne_zero_of_mem (s : CString) {c : UInt8} (hc : c ∈ s.chars) : c ≠ 0 :=
  fun h => s.noNul (h ▸ hc)

/-- The functions of `poorman::ostream`. -/
inductive OstreamCall
  | put (c : UInt8)
  | puts (s : CString)
  | write (s : List UInt8)
  | flush
  | endl
deriving DecidableEq

/-- The functions of `fifo_stream` that implement them. -/
def OstreamCall.call : OstreamCall → StreamCall
  | .put c => .put c
  | .puts s => .puts s.chars fun _ => s.ne_zero_of_mem
  | .write s => .write s
  | .flush => .flush
  | .endl => .endl

namespace TxCall

variable {η : Type u} (execute : List UInt8 → η → η × List OstreamCall)

/-- What a call of the terminal does to the stream; the hooks have a state of their own. -/
def onStream (hooks : η) : TxCall → η × List OstreamCall
  | .put c => (hooks, [.put c])
  | .puts s => (hooks, [.puts (.ofBytes s)])
  | .execute cmd => execute cmd hooks
  | .flush => (hooks, [.flush])

/-- One call after the other. -/
def allOnStream (hooks : η) : List TxCall → η × List OstreamCall
  | [] => (hooks, [])
  | call :: calls =>
      let first := call.onStream execute hooks
      let rest := allOnStream first.1 calls
      (rest.1, first.2 ++ rest.2)

end TxCall

/-- The list of hooks as the commands of the terminal, with what `run()` does. -/
def TerminalHooks.commands {η : Type u} (T : Target) (hooks : List TerminalHook)
    (run : TerminalHook → η → η × List OstreamCall) (cmd : List UInt8) (st : η) :
    η × List OstreamCall :=
  (TerminalHooks.execute T hooks (.ofBytes cmd) hooks).foldl (fun st call =>
    match call with
    | .run h => ((run h st.1).1, st.2 ++ (run h st.1).2)
    | .put c => (st.1, st.2 ++ [.put c])
    | .puts s => (st.1, st.2 ++ [.puts s])
    | .endl => (st.1, st.2 ++ [.endl])) (st, [])

/-- The terminal, its stream, the calls on the stream that are still to be made, and the
state of the hooks. -/
structure Console (η : Type u) where
  stream : UsartStream
  terminal : Terminal
  main : TerminalMain
  todo : List OstreamCall
  hooks : η

/-- The template arguments, `cmd_hooks::execute()` and the welcome message. -/
structure ConsoleConfig (η : Type u) where
  stream : StreamConfig
  echo : Bool
  execute : List UInt8 → η → η × List OstreamCall
  welcome : CString

namespace Console

variable {η : Type u} (cfg : ConsoleConfig η)

/-- After `open()`, before the welcome message. -/
def Initial (hooks : η) (s : Console η) : Prop :=
  s.stream.Initial ∧ s.terminal.cmdIndex = 0 ∧ s.terminal.calls = [] ∧ s.main = .idle ∧
    s.todo = [.puts cfg.welcome, .flush] ∧ s.hooks = hooks

/-- The terminal has gone on; what it has called is still to be done. -/
def proceed (terminal : Terminal) (main : TerminalMain) (s : Console η) : Console η :=
  let made := TxCall.allOnStream cfg.execute s.hooks
    (terminal.calls.drop s.terminal.calls.length)
  { s with terminal := terminal, main := main, todo := made.2, hooks := made.1 }

/-- `pop()` has returned to `process_input()`. -/
def afterPop (flushTx : Bool) (s : Console η) : Option UInt8 → Console η
  | none => s.proceed cfg (if flushTx then s.terminal.call .flush else s.terminal) .idle
  | some c =>
      match s.terminal.processChar cfg.echo c with
      | .error index => { s with main := .outOfBounds index }
      | .ok terminal => s.proceed cfg terminal (.loop true)

/-- Between two calls on the stream. -/
def nextCall (s : Console η) : Console η :=
  match s.todo with
  | call :: todo => { s with stream := s.stream.mainStep cfg.stream call.call, todo := todo }
  | [] =>
      match s.main with
      | .idle => { s with main := .loop false }
      | .loop _ => { s with stream := s.stream.mainStep cfg.stream .read }
      | .outOfBounds _ => s

/-- Within a call; the argument of `mainStep` is for an idle stream only. -/
def insideCall (s : Console η) : Console η :=
  let t := { s with stream := s.stream.mainStep cfg.stream .read }
  match s.stream.rxFifo.popResult with
  | none => t
  | some result =>
      match s.main with
      | .loop flushTx => t.afterPop cfg flushTx result
      | .idle | .outOfBounds _ => t

def mainStep (s : Console η) : Console η :=
  match s.main with
  | .outOfBounds _ => s
  | .idle | .loop _ =>
      match s.stream.main with
      | .idle => s.nextCall cfg
      | .run _ _ | .enabling _ _ _ => s.insideCall cfg

def isr (flags : SrFlags) (data : Nat) (s : Console η) : Console η :=
  { s with stream := s.stream.isr cfg.stream flags data }

inductive Step : Console η → Console η → Prop
  | main (s : Console η) : Step s (s.mainStep cfg)
  | isr (flags : SrFlags) (data : Nat) (s : Console η) : Step s (s.isr cfg flags data)

end Console

/-- The console with an observer of its pushes. -/
structure ObservedConsole (η : Type u) where
  console : Console η
  pushes : PushLog UInt8

namespace ObservedConsole

variable {η : Type u}

/-- The console has made a step. -/
def step (o : ObservedConsole η) (t : Console η) : ObservedConsole η :=
  ⟨t, o.pushes.observe o.console.stream.txFifo t.stream.txFifo⟩

def Initial (cfg : ConsoleConfig η) (hooks : η) (o : ObservedConsole η) : Prop :=
  o.console.Initial cfg hooks ∧ o.pushes = .start

inductive Step (cfg : ConsoleConfig η) : ObservedConsole η → ObservedConsole η → Prop
  | of (o : ObservedConsole η) (t : Console η) (h : Console.Step cfg o.console t) :
      Step cfg o (o.step t)

end ObservedConsole

/-! What is handed to the transmit fifo, push by push. -/

def StreamOp.batches : StreamOp → List (List UInt8)
  | .fifo push => [push.values]
  | .enableTxInterrupt | .pop => []

/-- The pushes of a call. -/
def OstreamCall.batches (crlf : Bool) (call : OstreamCall) : List (List UInt8) :=
  (call.call.ops crlf).flatMap StreamOp.batches

def StreamMain.todo : StreamMain → List StreamOp
  | .idle => []
  | .run _ todo | .enabling _ todo _ => todo

/-- The pushes of the call under way that have not ended. -/
def UsartStream.unpushed (s : UsartStream) : List (List UInt8) :=
  s.txFifo.producer.batch ++ s.main.todo.flatMap StreamOp.batches

namespace Console

variable {η : Type u} (cfg : ConsoleConfig η)

/-- The pushes that the console has still to do for what it has taken. -/
def unpushed (s : Console η) : List (List UInt8) :=
  s.stream.unpushed ++ s.todo.flatMap (OstreamCall.batches cfg.stream.crlf)

/-- All pushes for the calls of the terminal, from a state of the hooks. -/
def batches (hooks : η) (calls : List TxCall) : List (List UInt8) :=
  cfg.welcome.chars :: (TxCall.allOnStream cfg.execute hooks calls).2.flatMap
    (OstreamCall.batches cfg.stream.crlf)

/-- What the console prints for an input, push by push. -/
def output (hooks : η) (input : List UInt8) : List (List UInt8) :=
  batches cfg hooks (Terminal.transcript cfg.echo input)

end Console

end OpenMptl
