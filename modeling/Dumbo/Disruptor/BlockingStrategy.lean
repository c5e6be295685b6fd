import Dumbo.Disruptor.Pipeline

/-!
# Consumers that block

`BlockingStrategy::WaitFor` and `SignalAllWhenBlocking`. A strategy has a mutex and a condition variable of its
own; a consumer waits in the strategy of its barrier, and a publisher signals the one of its sequencer. A step is
an atomic operation of one of the threads, sequentially consistent.
-/

namespace Dumbo.Disruptor

open Transition

def kTimeoutSignal : Int := -3

namespace Blocking

/-- The arguments of `WaitFor`. -/
structure Call where
  sequence : Int
  timed : Bool
  deriving DecidableEq, Repr

/-- How the block under the mutex ends: with the last value of the cursor, or with `return`. -/
inductive Outcome
  | available (value : Int)
  | signal (value : Int)
  deriving DecidableEq, Repr

/-- Where a consumer stands inside `WaitFor`. -/
inductive ConsumerPc
  | idle
  /-- before the first load of the cursor -/
  | load (call : Call)
  | lock (call : Call)
  /-- under the mutex, before the load of the cursor -/
  | test (call : Call)
  /-- under the mutex, before the load of `alerted` -/
  | alerted (call : Call)
  /-- under the mutex, before `wait` -/
  | wait (call : Call)
  /-- in the condition variable -/
  | blocked (call : Call)
  /-- out of the condition variable, before it has the mutex again -/
  | woken (call : Call) (timedOut : Bool)
  /-- under the mutex, before the end of the block -/
  | unlock (call : Call) (outcome : Outcome)
  /-- before the load of the dependent `next` -/
  | scan (call : Call) (next : Nat) (minimum : Int)
  /-- before the load of `alerted` in the loop over the dependents -/
  | scanAlerted (call : Call)
  deriving DecidableEq, Repr

/-- Where a thread stands inside `SignalAllWhenBlocking`. -/
inductive PublisherPc
  | idle
  | lock
  | notify
  | unlock
  deriving DecidableEq, Repr

structure Topology (C S : Type) where
  /-- the strategy that a consumer waits in -/
  strategy : C → S
  /-- the strategy that the publishers signal -/
  signalled : S
  dependents : C → List C

structure State (C P S : Type) where
  cursor : Int
  sequence : C → Int
  alerted : C → Bool
  mutex : S → Option (C ⊕ P)
  consumer : C → ConsumerPc
  publisher : P → PublisherPc
  /-- for each call that has returned, its sequence and its value -/
  returned : C → List (Int × Int)

inductive Action (C P : Type)
  /-- the `fetch_add` in `Publish` -/
  | publish (p : P) (delta : Nat)
  /-- a call of `SignalAllWhenBlocking` by itself -/
  | signal (p : P)
  | acquire (p : P)
  | notifyAll (p : P)
  | release (p : P)
  | waitFor (c : C) (call : Call)
  /-- the next operation of a consumer in a call -/
  | go (c : C)
  | timeout (c : C)
  | spurious (c : C)
  | setAlerted (c : C) (alert : Bool)
  /-- a consumer commits -/
  | advance (c : C) (sequence : Int)

def ConsumerPc.notified : ConsumerPc → ConsumerPc
  | .blocked call => .woken call false
  | pc => pc

namespace State

variable {C P S : Type}

def initial : State C P S where
  cursor := kInitialCursorValue
  sequence := fun _ => kInitialCursorValue
  alerted := fun _ => false
  mutex := fun _ => none
  consumer := fun _ => .idle
  publisher := fun _ => .idle
  returned := fun _ => []

variable [DecidableEq C] [DecidableEq P] [DecidableEq S]

def setConsumer (s : State C P S) (c : C) (pc : ConsumerPc) : State C P S :=
  { s with consumer := Function.update s.consumer c pc }

def setPublisher (s : State C P S) (p : P) (pc : PublisherPc) : State C P S :=
  { s with publisher := Function.update s.publisher p pc }

def setMutex (s : State C P S) (m : S) (owner : Option (C ⊕ P)) : State C P S :=
  { s with mutex := Function.update s.mutex m owner }

def setReturned (s : State C P S) (c : C) (sequence value : Int) : State C P S :=
  { s.setConsumer c .idle with
    returned := Function.update s.returned c (s.returned c ++ [(sequence, value)]) }

/-- `WaitFor` goes on to the dependents with the value of the cursor, or returns it. -/
def pass (longMax : Int) (topology : Topology C S) (s : State C P S) (c : C) (call : Call)
    (value : Int) : State C P S :=
  if topology.dependents c = [] then s.setReturned c call.sequence value
  else s.setConsumer c (.scan call 0 longMax)

/-- The block under the mutex has ended. -/
def leave (longMax : Int) (topology : Topology C S) (s : State C P S) (c : C) (call : Call) :
    Outcome → State C P S
  | .available value => s.pass longMax topology c call value
  | .signal value => s.setReturned c call.sequence value

/-- The mutex is free for a consumer that comes to it. -/
def enter (topology : Topology C S) (s : State C P S) (c : C) (pc : ConsumerPc) : Option (State C P S) :=
  if s.mutex (topology.strategy c) = none then
    some ((s.setConsumer c pc).setMutex (topology.strategy c) (some (.inl c)))
  else none

/-- One operation of a consumer inside `WaitFor`. -/
def go (longMax : Int) (topology : Topology C S) (s : State C P S) (c : C) : Option (State C P S) :=
  match s.consumer c with
  | .idle | .blocked _ => none
  | .load call =>
    if s.cursor < call.sequence then some (s.setConsumer c (.lock call))
    else some (s.pass longMax topology c call s.cursor)
  | .lock call => s.enter topology c (.test call)
  | .test call =>
    if s.cursor < call.sequence then some (s.setConsumer c (.alerted call))
    else some (s.setConsumer c (.unlock call (.available s.cursor)))
  | .alerted call =>
    if s.alerted c then some (s.setConsumer c (.unlock call (.signal kAlertedSignal)))
    else some (s.setConsumer c (.wait call))
  | .wait call => some ((s.setConsumer c (.blocked call)).setMutex (topology.strategy c) none)
  | .woken call timedOut =>
    s.enter topology c (if timedOut then .unlock call (.signal kTimeoutSignal) else .test call)
  | .unlock call outcome =>
    some ((s.leave longMax topology c call outcome).setMutex (topology.strategy c) none)
  | .scan call next minimum =>
    match (topology.dependents c)[next]? with
    | some d =>
      some (s.setConsumer c (.scan call (next + 1)
        (if minimum < s.sequence d then minimum else s.sequence d)))
    | none =>
      if minimum < call.sequence then some (s.setConsumer c (.scanAlerted call))
      else some (s.setReturned c call.sequence minimum)
  | .scanAlerted call =>
    if s.alerted c then some (s.setReturned c call.sequence kAlertedSignal)
    else some (s.setConsumer c (.scan call 0 longMax))

end State

variable {C P S : Type} [DecidableEq C] [DecidableEq P] [DecidableEq S]

def step (longMax : Int) (topology : Topology C S) (s : State C P S) :
    Action C P → Option (State C P S)
  | .publish p delta =>
    if s.publisher p = .idle then some { s.setPublisher p .lock with cursor := s.cursor + delta } else none
  | .signal p => if s.publisher p = .idle then some (s.setPublisher p .lock) else none
  | .acquire p =>
    if s.publisher p = .lock ∧ s.mutex topology.signalled = none then
      some ((s.setPublisher p .notify).setMutex topology.signalled (some (.inr p)))
    else none
  | .notifyAll p =>
    if s.publisher p = .notify then
      some { s.setPublisher p .unlock with
        consumer := fun c =>
          if topology.strategy c = topology.signalled then (s.consumer c).notified else s.consumer c }
    else none
  | .release p =>
    if s.publisher p = .unlock then some ((s.setPublisher p .idle).setMutex topology.signalled none)
    else none
  | .waitFor c call => if s.consumer c = .idle then some (s.setConsumer c (.load call)) else none
  | .go c => s.go longMax topology c
  | .timeout c =>
    match s.consumer c with
    | .blocked call => if call.timed then some (s.setConsumer c (.woken call true)) else none
    | _ => none
  | .spurious c =>
    match s.consumer c with
    | .blocked call => some (s.setConsumer c (.woken call false))
    | _ => none
  | .setAlerted c alert => some { s with alerted := Function.update s.alerted c alert }
  | .advance c sequence =>
    if s.sequence c ≤ sequence ∧ sequence ≤ s.cursor then
      some { s with sequence := Function.update s.sequence c sequence }
    else none

def machine (longMax : Int) (topology : Topology C S) : Machine (State C P S) (Action C P) :=
  ⟨.initial, step longMax topology⟩

end Blocking

end Dumbo.Disruptor
