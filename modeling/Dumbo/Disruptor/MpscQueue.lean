import Dumbo.Disruptor.Sequence
import Dumbo.Lib.Machine

/-!
# The multi-producer queue

`MPSCQueue` over a `Sequencer` with the `MultiThreadedStrategy` and a `BatchEventProcessor`, as a
machine whose steps are the atomic operations of any number of producer threads and one consumer
thread, sequentially consistent. The ring has `2 ^ k` slots.
-/

namespace Dumbo.Disruptor.Mpsc

open Transition

abbrev ThreadId := Nat

variable {T : Type}

/-- Where a producer stands inside `send(value)`. -/
inductive ProducerPc (T : Type)
  | idle
  /-- before the `fetch_add` of `Claim(1)` -/
  | claim (value : T)
  /-- in the wait loop of `IncrementAndGet` -/
  | gate (sequence : Int) (value : T)
  /-- before the store to the slot -/
  | write (sequence : Int) (value : T)
  /-- in the wait loop of `SynchronizePublishing` -/
  | synchronize (sequence : Int)
  /-- before the `fetch_add` of the cursor -/
  | publish (sequence : Int)

/-- Where the consumer stands inside `get` or `get_all`. -/
inductive ConsumerPc
  | idle
  /-- in the loop over `fn(event_processor_.get_event(c))` -/
  | deliver (c size : Nat)
  /-- in `commit`, before the store of `finish_batch` -/
  | finishBatch

structure State (T : Type) where
  lastClaimed : Int
  lastConsumer : Int
  cursor : Int
  events : Nat → T
  consumerSequence : Int
  nextSequence : Int
  available : Int
  producer : ThreadId → ProducerPc T
  consumer : ConsumerPc
  /-- the values each thread has called `send` with, in program order -/
  calls : ThreadId → List T
  /-- the values in claim order -/
  sent : List (ThreadId × T)
  /-- the values handed to `fn` -/
  delivered : List T

def State.isBatch (s : State T) : Bool := s.nextSequence ≤ s.available

/-- `has_events`, and the `begin_batch` it calls when no batch is open. -/
def State.hasEvents (s : State T) : State T × Nat :=
  if s.isBatch then (s, (s.available - s.nextSequence + 1).toNat)
  else
    let next := s.consumerSequence + 1
    let available := dontWaitFor next s.cursor
    let s' := { s with nextSequence := next, available := available }
    (s', if next ≤ available then (available - next + 1).toNat else 0)

/-- `get(n, fn)`, or `get_all(fn)` for `requested = none`, up to its first call of `fn`. -/
def State.beginGet (s : State T) (requested : Option Nat) : State T :=
  let (s', size) := s.hasEvents
  if size = 0 then s'
  else { s' with consumer := .deliver 0 (match requested with
    | some n => min size n
    | none => size) }

inductive Action (T : Type)
  | send (p : ThreadId) (value : T)
  | claim (p : ThreadId)
  | pass (p : ThreadId)
  | write (p : ThreadId)
  | synchronize (p : ThreadId)
  | publish (p : ThreadId)
  | get (requested : Option Nat)
  | deliver
  | commit
  | finishBatch

def State.setProducer (s : State T) (p : ThreadId) (pc : ProducerPc T) : State T :=
  { s with producer := Function.update s.producer p pc }

/-- One atomic step. A test of a wait loop that fails changes nothing and is not an action. -/
def step (k : Nat) (longMax : Int) (s : State T) : Action T → Option (State T)
  | .send p value =>
    match s.producer p with
    | .idle =>
      some { s.setProducer p (.claim value) with
        calls := Function.update s.calls p (s.calls p ++ [value]) }
    | _ => none
  | .claim p =>
    match s.producer p with
    | .claim value =>
      let next := s.lastClaimed + 1
      some { s.setProducer p (.gate next value) with
        lastClaimed := next
        sent := s.sent ++ [(p, value)] }
    | _ => none
  | .pass p =>
    match s.producer p with
    | .gate sequence value =>
      if hasRoom longMax s.lastConsumer [s.consumerSequence] (wrapPoint sequence (2 ^ k)) then
        some (s.setProducer p (.write sequence value))
      else none
    | _ => none
  | .write p =>
    match s.producer p with
    | .write sequence value =>
      some { s.setProducer p (.synchronize sequence) with
        events := Function.update s.events (ringIndex (2 ^ k) sequence) value }
    | _ => none
  | .synchronize p =>
    match s.producer p with
    | .synchronize sequence =>
      if s.cursor < sequence - 1 then none else some (s.setProducer p (.publish sequence))
    | _ => none
  | .publish p =>
    match s.producer p with
    | .publish _ => some { s.setProducer p .idle with cursor := s.cursor + 1 }
    | _ => none
  | .get requested =>
    match s.consumer with
    | .idle => some (s.beginGet requested)
    | _ => none
  | .deliver =>
    match s.consumer with
    | .deliver c size =>
      if c < size then
        some { s with
          delivered := s.delivered ++ [s.events (ringIndex (2 ^ k) (s.nextSequence + c))]
          consumer := .deliver (c + 1) size }
      else none
    | _ => none
  | .commit =>
    match s.consumer with
    | .deliver c size =>
      if c < size then none
      else
        let s' := { s with nextSequence := s.nextSequence + size }
        some { s' with consumer := if s'.isBatch then .idle else .finishBatch }
    | _ => none
  | .finishBatch =>
    match s.consumer with
    | .finishBatch => some { s with consumerSequence := s.nextSequence - 1, consumer := .idle }
    | _ => none

def initial [Inhabited T] : State T where
  lastClaimed := kInitialCursorValue
  lastConsumer := kInitialCursorValue
  cursor := kInitialCursorValue
  events := fun _ => default
  consumerSequence := kInitialCursorValue
  nextSequence := 0
  available := kInitialCursorValue
  producer := fun _ => .idle
  consumer := .idle
  calls := fun _ => []
  sent := []
  delivered := []

def machine [Inhabited T] (k : Nat) (longMax : Int) : Machine (State T) (Action T) :=
  ⟨initial, step k longMax⟩

end Dumbo.Disruptor.Mpsc
