/-
The interrupt-driven USART stream on a single core.  The main program works on
the fifos and on CR1 step by step; between any two of its steps the interrupt
service routine may run to completion, with any flags in the status register.
-/
import Mathlib.Data.UInt
import OpenMptl.BitMask
import OpenMptl.RingBufferSafety

namespace OpenMptl

/-- What the main program calls: the functions of `fifo_stream`, and `pop()` on
the receive fifo. -/
inductive StreamCall
  | put (c : UInt8)
  | puts (s : List UInt8) (nonzero : ∀ c ∈ s, c ≠ 0)
  | write (s : List UInt8)
  | flush
  | endl
  | read

/-- The calls that these functions make. -/
inductive StreamOp
  | fifo (call : PushCall UInt8)
  | enableTxInterrupt
  | pop

/-- The template arguments, and whether `TXEIE::set()` is one bit-band write. -/
structure StreamConfig where
  size : Nat
  crlf : Bool
  bitband : Bool
deriving DecidableEq, Repr

namespace StreamCall

/-- The bodies of the functions of `fifo_stream` and `usart_irq_stream`. -/
def ops (crlf : Bool) : StreamCall → List StreamOp
  | .put c => [.fifo (.push c)]
  | .puts s nonzero => [.fifo (.pushs (.text s nonzero))]
  | .write s => [.fifo (.pushs (.block s))]
  | .flush => [.enableTxInterrupt]
  | .endl => (if crlf then [.fifo (.push 13)] else []) ++
      [.fifo (.push 10), .enableTxInterrupt]
  | .read => [.pop]

def flushes : StreamCall → Bool
  | .flush | .endl => true
  | .put _ | .puts _ _ | .write _ | .read => false

/-- `put()`, `puts()` and `write()` -/
def isWrite : StreamCall → Bool
  | .put _ | .puts _ _ | .write _ => true
  | .flush | .endl | .read => false

/-- The calls that push to the transmit fifo. -/
def pushes : StreamCall → Bool
  | .put _ | .puts _ _ | .write _ | .endl => true
  | .flush | .read => false

end StreamCall

inductive StreamEvent
  | start (call : StreamCall)
  | ret (call : StreamCall)

/-- Whether a flush has returned since the last start of a call in `closes`. -/
def windowOpen (closes : StreamCall → Bool) (events : List StreamEvent) : Bool :=
  events.foldl (fun isOpen event =>
    match event with
    | .start call => isOpen && !closes call
    | .ret call => isOpen || call.flushes) false

/-- Where the main program stands; inside a fifo access, the fifo itself knows. -/
inductive StreamMain
  | idle
  | run (call : StreamCall) (todo : List StreamOp)
  /-- CR1 is loaded and not yet stored. -/
  | enabling (call : StreamCall) (todo : List StreamOp) (cr1 : Nat)

/-- The bit of `CR1::TXEIE`. -/
def txeie : Nat := 7

/-- The flags of the status register that the routine looks at. -/
structure SrFlags where
  rxne : Bool
  txe : Bool
deriving DecidableEq, Repr

/-- `sent` collects the stores to DR, `received` the bytes taken from DR with the
result of their `rx_fifo.push()`. -/
structure UsartStream where
  txFifo : Channel UInt8
  rxFifo : Channel UInt8
  cr1 : Nat
  main : StreamMain
  sent : List UInt8
  received : List (UInt8 × Bool)
  events : List StreamEvent

namespace UsartStream

/-- After `open()`. -/
def Initial (s : UsartStream) : Prop :=
  s.txFifo.Initial ∧ s.rxFifo.Initial ∧ s.main = .idle ∧ s.sent = [] ∧
    s.received = [] ∧ s.events = []

/-- The receive half of `isr()`; `data` is the content of DR. -/
def isrReceive (cfg : StreamConfig) (data : Nat) (s : UsartStream) : UsartStream :=
  let c := UInt8.ofNat data
  { s with
    rxFifo := s.rxFifo.atomicPush cfg.size c
    received := s.received ++ [(c, (s.rxFifo.ring.push cfg.size c).1)] }

/-- The transmit half of `isr()`. -/
def isrTransmit (cfg : StreamConfig) (s : UsartStream) : UsartStream :=
  match s.txFifo.atomicPop cfg.size with
  | (some c, txFifo) => { s with txFifo := txFifo, sent := s.sent ++ [c] }
  | (none, txFifo) => { s with txFifo := txFifo, cr1 := s.cr1 &&& bitNot 32 (2 ^ txeie) }

def isr (cfg : StreamConfig) (flags : SrFlags) (data : Nat) (s : UsartStream) :
    UsartStream :=
  let s := if flags.rxne then s.isrReceive cfg data else s
  if flags.txe then s.isrTransmit cfg else s

/-- The next step of the main program outside the fifos. -/
def mainNext (cfg : StreamConfig) (next : StreamCall) (s : UsartStream) : UsartStream :=
  match s.main with
  | .idle =>
      { s with main := .run next (next.ops cfg.crlf), events := s.events ++ [.start next] }
  | .run call [] => { s with main := .idle, events := s.events ++ [.ret call] }
  | .run call (.fifo push :: todo) =>
      { s with main := .run call todo, txFifo := s.txFifo.beginCall push }
  | .run call (.enableTxInterrupt :: todo) =>
      if cfg.bitband then { s with main := .run call todo, cr1 := s.cr1 ||| 2 ^ txeie }
      else { s with main := .enabling call todo s.cr1 }
  | .run call (.pop :: todo) =>
      { s with main := .run call todo, rxFifo := s.rxFifo.consumerStep cfg.size }
  | .enabling call todo cr1 => { s with main := .run call todo, cr1 := cr1 ||| 2 ^ txeie }

/-- One step of the main program; when it is between calls, `next` is called. -/
def mainStep (cfg : StreamConfig) (next : StreamCall) (s : UsartStream) : UsartStream :=
  match s.txFifo.producer with
  | .idle =>
      match s.rxFifo.consumer with
      | .idle => s.mainNext cfg next
      | .popCompare _ | .popRead _ | .popStore _ _ =>
          { s with rxFifo := s.rxFifo.consumerStep cfg.size }
  -- the argument is for an idle producer only
  | .pushCompare _ _ | .pushWrite _ _ _ | .pushStore _ _ | .pushsLoad _ _ | .pushsLoop _ _ _ _
  | .pushsWrite _ _ _ _ _ | .pushsStore _ _ =>
      { s with txFifo := s.txFifo.producerStep cfg.size (.push 0) }

inductive Step (cfg : StreamConfig) : UsartStream → UsartStream → Prop
  | main (next : StreamCall) (s : UsartStream) : Step cfg s (s.mainStep cfg next)
  | isr (flags : SrFlags) (data : Nat) (s : UsartStream) : Step cfg s (s.isr cfg flags data)

/-- `tx_fifo` would not reject a `pop()`. -/
def TxNonempty (s : UsartStream) : Prop := s.txFifo.ring.readIndex ≠ s.txFifo.ring.writeIndex

instance (s : UsartStream) : Decidable s.TxNonempty := inferInstanceAs (Decidable (_ ≠ _))

def TxInterruptEnabled (s : UsartStream) : Prop := s.cr1.testBit txeie = true

instance (s : UsartStream) : Decidable s.TxInterruptEnabled :=
  inferInstanceAs (Decidable (_ = _))

end UsartStream

end OpenMptl
