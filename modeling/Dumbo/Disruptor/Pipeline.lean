import Dumbo.Disruptor.Sequencer

/-!
# Consumers behind barriers

Each consumer is a `BatchEventProcessor` with a `SequenceBarrier` on the cursor or on the sequences of
other consumers. The sequencer is gated on the sequences of some of them. A step is an atomic operation of
one of the threads, sequentially consistent.
-/

namespace Dumbo.Disruptor

open Transition

def kAlertedSignal : Int := -2

namespace Pipeline

inductive WaitStrategy
  /-- `BusySpinStrategy`, `YieldingStrategy` and `SleepingStrategy`, which differ in what they do between two
  tests -/
  | spinning
  | dontWait
  deriving DecidableEq, Repr

structure Topology (C : Type) where
  /-- `dependents_` of the barrier of each consumer -/
  dependents : C → List C
  gatingSequences : List C
  waitStrategy : C → WaitStrategy

/-- Where a consumer stands inside `get(n, fn)`, or `get_all(fn)` for no `requested`. -/
inductive ConsumerPc
  | idle
  /-- in `WaitFor`, before the load of the cursor or of the dependent `next` -/
  | scan (next : Nat) (minimum : Int) (requested : Option Nat)
  /-- before the load of `alerted_` -/
  | alerted (requested : Option Nat)
  | deliver (c size : Nat)
  /-- in `commit`, before the store of `finish_batch` -/
  | finishBatch
  deriving DecidableEq, Repr

structure Consumer (T : Type) where
  sequence : Int
  nextSequence : Int
  available : Int
  alerted : Bool
  pc : ConsumerPc
  delivered : List T

namespace Consumer

variable {T : Type}

def initial : Consumer T := ⟨kInitialCursorValue, 0, kInitialCursorValue, false, .idle, []⟩

def isBatch (x : Consumer T) : Bool := x.nextSequence ≤ x.available

/-- `has_events` has returned `size`. -/
def hasEvents (x : Consumer T) (size : Nat) (requested : Option Nat) : Consumer T :=
  if size = 0 then { x with pc := .idle }
  else { x with pc := .deliver 0 (match requested with
    | some n => min size n
    | none => size) }

/-- `WaitFor` has returned `value` to `begin_batch`. -/
def waited (x : Consumer T) (value : Int) (requested : Option Nat) : Consumer T :=
  { x with available := value }.hasEvents
    (if x.nextSequence ≤ value then (value - x.nextSequence + 1).toNat else 0) requested

/-- A call up to its first load. -/
def get (longMax : Int) (x : Consumer T) (requested : Option Nat) : Consumer T :=
  if x.isBatch then x.hasEvents (x.available - x.nextSequence + 1).toNat requested
  else { x with nextSequence := x.sequence + 1, pc := .scan 0 longMax requested }

/-- The test of the loop in `WaitFor`. -/
def test (strategy : WaitStrategy) (x : Consumer T) (value : Int) (requested : Option Nat) : Consumer T :=
  if value < x.nextSequence then
    match strategy with
    | .spinning => { x with pc := .alerted requested }
    | .dontWait => x.waited kNotReadySignal requested
  else x.waited value requested

def commit (x : Consumer T) (size : Nat) : Consumer T :=
  let x := { x with nextSequence := x.nextSequence + size }
  { x with pc := if x.isBatch then .idle else .finishBatch }

end Consumer

structure State (T C : Type) where
  sequencer : Sequencer.State T
  consumer : C → Consumer T

inductive Action (T C : Type)
  | publisher (a : Sequencer.Action T)
  | get (c : C) (requested : Option Nat)
  | scan (c : C)
  | checkAlerted (c : C)
  | deliver (c : C)
  | commit (c : C)
  | finishBatch (c : C)
  | setAlerted (c : C) (alert : Bool)

variable {T C : Type}

/-- The sequencer, whose gating sequences are pointers to those of consumers. -/
def State.gated (topology : Topology C) (s : State T C) : Sequencer.State T :=
  { s.sequencer with
    gating := fun i => (topology.gatingSequences[i]?).elim kInitialCursorValue
      fun c => (s.consumer c).sequence }

variable [DecidableEq C]

def State.setConsumer (s : State T C) (c : C) (x : Consumer T) : State T C :=
  { s with consumer := Function.update s.consumer c x }

/-- One load of `min_sequence()`, or the test behind the last. -/
def State.scan (topology : Topology C) (s : State T C) (c : C) (next : Nat) (minimum : Int)
    (requested : Option Nat) : Consumer T :=
  let x := s.consumer c
  match topology.dependents c with
  | [] => x.test (topology.waitStrategy c) s.sequencer.cursor requested
  | dependents =>
    match dependents[next]? with
    | some d =>
      let sequence := (s.consumer d).sequence
      { x with pc := .scan (next + 1) (if minimum < sequence then minimum else sequence) requested }
    | none => x.test (topology.waitStrategy c) minimum requested

def step (k : Nat) (longMax : Int) (topology : Topology C) (s : State T C) :
    Action T C → Option (State T C)
  | .publisher (.advance _ _) => none
  | .publisher a =>
    (Sequencer.step k longMax topology.gatingSequences.length (s.gated topology) a).map fun q =>
      { s with sequencer := q }
  | .get c requested =>
    match (s.consumer c).pc with
    | .idle => some (s.setConsumer c ((s.consumer c).get longMax requested))
    | _ => none
  | .scan c =>
    match (s.consumer c).pc with
    | .scan next minimum requested =>
      some (s.setConsumer c (s.scan topology c next minimum requested))
    | _ => none
  | .checkAlerted c =>
    let x := s.consumer c
    match x.pc with
    | .alerted requested =>
      some (s.setConsumer c
        (if x.alerted then x.waited kAlertedSignal requested
          else { x with pc := .scan 0 longMax requested }))
    | _ => none
  | .deliver c =>
    let x := s.consumer c
    match x.pc with
    | .deliver i size =>
      if i < size then
        some (s.setConsumer c { x with
          delivered := x.delivered ++ [s.sequencer.events (ringIndex (2 ^ k) (x.nextSequence + i))]
          pc := .deliver (i + 1) size })
      else none
    | _ => none
  | .commit c =>
    let x := s.consumer c
    match x.pc with
    | .deliver i size => if i < size then none else some (s.setConsumer c (x.commit size))
    | _ => none
  | .finishBatch c =>
    let x := s.consumer c
    match x.pc with
    | .finishBatch => some (s.setConsumer c { x with sequence := x.nextSequence - 1, pc := .idle })
    | _ => none
  | .setAlerted c alert => some (s.setConsumer c { s.consumer c with alerted := alert })

def machine [Inhabited T] (k : Nat) (longMax : Int) (topology : Topology C) :
    Machine (State T C) (Action T C) :=
  ⟨⟨Sequencer.initial, fun _ => .initial⟩, step k longMax topology⟩

end Pipeline

end Dumbo.Disruptor
