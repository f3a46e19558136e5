/-
The terminal.  `process_input()` takes one byte after the other from the receive
fifo, between any two of whose accesses the receive interrupt may store another;
what is done with a byte does not touch the fifo and is one step.
-/
import Mathlib.Data.UInt
import OpenMptl.Lines
import OpenMptl.RingBuffer

namespace OpenMptl

universe u

namespace Terminal

/-- `cmd_buf_size` -/
def cmdBufSize : Nat := 80

def newline : List UInt8 := [13, 10]

def prompt : List UInt8 := [35, 32]

end Terminal

/-- The calls on `tx_stream`, and `cmd_hooks::execute()`, which is given the stream. -/
inductive TxCall
  | put (c : UInt8)
  | puts (s : List UInt8)
  | execute (cmd : List UInt8)
  | flush
deriving DecidableEq, Repr

/-- The members of `terminal`, and the calls it has made since `open()`. -/
structure Terminal where
  cmdBuf : Vector UInt8 Terminal.cmdBufSize
  cmdIndex : Nat
  calls : List TxCall

namespace Terminal

/-- `cmd_buf[index] = c`; an index that is not in the array is the error. -/
def store (index : Nat) (c : UInt8) (t : Terminal) : Except Nat Terminal :=
  if h : index < cmdBufSize then .ok { t with cmdBuf := t.cmdBuf.set index c h }
  else .error index

/-- `cmd_buf` as a C string. -/
def command (t : Terminal) : List UInt8 := t.cmdBuf.toList.takeWhile (· ≠ 0)

def call (c : TxCall) (t : Terminal) : Terminal := { t with calls := t.calls ++ [c] }

/-- `close()` -/
def close (t : Terminal) : Terminal := { t with cmdIndex := 0 }

/-- The body of the loop in `process_input()`. -/
def processChar (echo : Bool) (c : UInt8) (t : Terminal) : Except Nat Terminal :=
  if c = 13 then
    let t := if echo then t.call (.puts newline) else t
    match t.store t.cmdIndex 0 with
    | .error index => .error index
    | .ok t =>
        let t := if t.cmdIndex ≠ 0 then t.call (.execute t.command) else t
        let t := t.call (.puts prompt)
        .ok { t with cmdIndex := 0 }
  else if 32 ≤ c ∧ c ≤ 126 ∧ t.cmdIndex < cmdBufSize then
    let t := if echo then t.call (.put c) else t
    match t.store t.cmdIndex c with
    | .error index => .error index
    | .ok t => .ok { t with cmdIndex := t.cmdIndex + 1 }
  else .ok t

end Terminal

/-- Where the main program stands; inside `pop()`, the fifo itself knows. -/
inductive TerminalMain
  | idle
  | loop (flushTx : Bool)
  /-- Nothing is known of a program that has stored outside of `cmd_buf`. -/
  | outOfBounds (index : Nat)
deriving DecidableEq, Repr

/-- The terminal with its receive fifo, whose histories begin at `open()`. -/
structure TerminalDevice where
  terminal : Terminal
  rxFifo : Channel UInt8
  main : TerminalMain

namespace TerminalDevice

/-- After the constructor and `open()`. -/
def Initial (s : TerminalDevice) : Prop :=
  s.terminal.cmdIndex = 0 ∧ s.terminal.calls = [] ∧ s.rxFifo.Initial ∧ s.main = .idle

/-- The next step of `process_input()`; between calls it is called again. -/
def mainStep (size : Nat) (echo : Bool) (s : TerminalDevice) : TerminalDevice :=
  match s.main with
  | .outOfBounds _ => s
  | .idle => { s with main := .loop false }
  | .loop flushTx =>
      match s.rxFifo.popResult with
      | none => { s with rxFifo := s.rxFifo.consumerStep size }
      | some none =>
          { terminal := if flushTx then s.terminal.call .flush else s.terminal
            rxFifo := s.rxFifo.consumerStep size
            main := .idle }
      | some (some c) =>
          match s.terminal.processChar echo c with
          | .error index =>
              { s with rxFifo := s.rxFifo.consumerStep size, main := .outOfBounds index }
          | .ok terminal =>
              { terminal := terminal
                rxFifo := s.rxFifo.consumerStep size
                main := .loop true }

/-- The receive interrupt. -/
def isrReceive (size : Nat) (c : UInt8) (s : TerminalDevice) : TerminalDevice :=
  { s with rxFifo := s.rxFifo.atomicPush size c }

/-- `close()` and `open()` -/
def reopen (s : TerminalDevice) : TerminalDevice :=
  { terminal := { s.terminal.close with calls := [] }
    rxFifo := ⟨s.rxFifo.ring.reset, .idle, .idle, [], []⟩
    main := .idle }

inductive Step (size : Nat) (echo : Bool) : TerminalDevice → TerminalDevice → Prop
  | main (s : TerminalDevice) : Step size echo s (s.mainStep size echo)
  | isr (c : UInt8) (s : TerminalDevice) : Step size echo s (s.isrReceive size c)
  | reopen (s : TerminalDevice) (h : s.main = .idle) : Step size echo s s.reopen

/-- Every index that `cmd_buf` was accessed with is one of its elements. -/
def InBounds (s : TerminalDevice) : Prop := ∀ index, s.main ≠ .outOfBounds index

/-- `process_input()` is about to load the write index. -/
def Loads (s : TerminalDevice) : Prop :=
  (∃ flushTx, s.main = .loop flushTx) ∧ s.rxFifo.consumer = .idle

/-- `process_input()` returns with its next step. -/
def ReturnsNext (size : Nat) (echo : Bool) (s : TerminalDevice) : Prop :=
  (∃ flushTx, s.main = .loop flushTx) ∧ (s.mainStep size echo).main = .idle

/-- Bytes come in. -/
inductive Receives (size : Nat) : TerminalDevice → TerminalDevice → Prop
  | isr (c : UInt8) (s : TerminalDevice) : Receives size s (s.isrReceive size c)

/-- The main program runs until the call returns; nothing is received. -/
inductive Returns (size : Nat) (echo : Bool) : TerminalDevice → TerminalDevice → Prop
  | done (s : TerminalDevice) (h : s.main = .idle) : Returns size echo s s
  | next (s t : TerminalDevice) (h : s.main ≠ .idle)
      (hrest : Returns size echo (s.mainStep size echo) t) : Returns size echo s t

/-- A call of `process_input()`. -/
def ProcessInput (size : Nat) (echo : Bool) (s t : TerminalDevice) : Prop :=
  s.main = .idle ∧ Returns size echo (s.mainStep size echo) t

/-- The receive interrupts of a chunk. -/
def receive (size : Nat) (chunk : List UInt8) (s : TerminalDevice) : TerminalDevice :=
  chunk.foldl (fun s c => s.isrReceive size c) s

/-- The input comes in chunks, each followed by a call of `process_input()`. -/
inductive Chunked (size : Nat) (echo : Bool) :
    List (List UInt8) → TerminalDevice → TerminalDevice → Prop
  | nil (s : TerminalDevice) : Chunked size echo [] s s
  | cons (chunk : List UInt8) (chunks : List (List UInt8)) (s t u : TerminalDevice)
      (hcall : ProcessInput size echo (s.receive size chunk) t)
      (hrest : Chunked size echo chunks t u) : Chunked size echo (chunk :: chunks) s u

end TerminalDevice

/-! What the terminal makes of its input, line by line. -/

namespace Terminal

def isPrintable (c : UInt8) : Bool := 32 ≤ c && c ≤ 126

/-- The printable characters of a line. -/
def printables (line : List UInt8) : List UInt8 := line.filter isPrintable

/-- Every line that a CR has ended leaves room for the 0. -/
def LinesFit (input : List UInt8) : Prop :=
  ∀ line ∈ completeLines 13 input, (printables line).length < cmdBufSize

instance (input : List UInt8) : Decidable (LinesFit input) :=
  inferInstanceAs (Decidable (∀ line ∈ completeLines 13 input, _))

/-- The line that is being typed, as far as the buffer takes it. -/
def lineText (input : List UInt8) : List UInt8 :=
  (printables (partialLine 13 input)).take cmdBufSize

/-- The commands of the complete lines; an empty line is none. -/
def commands (input : List UInt8) : List (List UInt8) :=
  ((completeLines 13 input).map printables).filter (· ≠ [])

def echoCalls (echo : Bool) (text : List UInt8) : List TxCall :=
  if echo then text.map .put else []

def executeCalls (cmd : List UInt8) : List TxCall := if cmd = [] then [] else [.execute cmd]

/-- The calls for one complete line. -/
def lineCalls (echo : Bool) (text : List UInt8) : List TxCall :=
  echoCalls echo text ++ (if echo then [.puts newline] else []) ++ executeCalls text ++
    [.puts prompt]

/-- The calls for the whole input, but for the flushes. -/
def transcript (echo : Bool) (input : List UInt8) : List TxCall :=
  (completeLines 13 input).flatMap (fun line => lineCalls echo (printables line)) ++
    echoCalls echo (lineText input)

end Terminal

namespace TxCall

variable {η : Type u} (execute : List UInt8 → η → η × List UInt8)

/-- A stream that never drops; the hooks print depending on a state of their own. -/
def print (st : η × List UInt8) : TxCall → η × List UInt8
  | .put c => (st.1, st.2 ++ [c])
  | .puts s => (st.1, st.2 ++ s)
  | .execute cmd => ((execute cmd st.1).1, st.2 ++ (execute cmd st.1).2)
  | .flush => st

/-- All that the calls print, from a state of the hooks. -/
def output (hooks : η) (calls : List TxCall) : List UInt8 :=
  (calls.foldl (print execute) (hooks, [])).2

/-- The strings passed to `execute()`. -/
def executed (calls : List TxCall) : List (List UInt8) :=
  calls.filterMap fun
    | .execute cmd => some cmd
    | .put _ | .puts _ | .flush => none

end TxCall

/-- What a terminal has done with the input: the commands executed, the line that is being
typed, and what a stream that never drops has printed. -/
structure Terminal.Processed (echo : Bool) (input : List UInt8) (t : Terminal) : Prop where
  executed : TxCall.executed t.calls = commands input
  cmdIndex : t.cmdIndex = (lineText input).length
  cmdBuf : t.cmdBuf.toList.take t.cmdIndex = lineText input
  output : ∀ (η : Type u) (execute : List UInt8 → η → η × List UInt8) (hooks : η),
    TxCall.output execute hooks t.calls = TxCall.output execute hooks (transcript echo input)

end OpenMptl
