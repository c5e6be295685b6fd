import Dumbo.Lib.Machine
import Mathlib.Data.List.Nodup

/-!
# The thread pool of a reactor

The reactor's thread calls `try_run`, `release` and `stop_workers`, between the steps of the workers. An
address is free for a new `Worker` when no other is there, and a message is given to the pool only when
the pool does not have it. `run` and `stop` wait for `mutex_`, which a worker's thread gives up in its
`cv_.wait`, or has not taken for the first time.
-/

namespace Dumbo.Reactor

open Transition

namespace ThreadPool

variable {W T : Type*}

/-- What the thread of a `Worker` does. -/
inductive Worker (T : Type*)
  /-- before `mutex_` is taken for the first time -/
  | starting
  /-- in its wait -/
  | idle
  /-- `run` has been called -/
  | given (task : T)
  /-- `run` has been called before the first `ready_ = false` -/
  | lost (task : T)
  /-- behind `process` -/
  | processed (task : T)
  /-- behind `set_data` -/
  | tagged (task : T)
  /-- the thread has ended, and has been joined -/
  | joined
  deriving DecidableEq, Repr

inductive Fault
  | assertion
  /-- `join` waits for a thread that does not know of the stop -/
  | blocked
  /-- a `Worker` is destroyed whose thread is joinable -/
  | terminate
  /-- a worker is erased from a list it is not in -/
  | unlinked
  deriving DecidableEq, Repr

structure State (W T : Type*) where
  freeWorkers : List W
  busyWorkers : List W
  /-- the workers, where there are any -/
  worker : W → Option (Worker T)
  /-- `Message::data` -/
  data : T → Option W
  /-- the messages that have come back to the reactor -/
  finished : List T
  /-- the worker that has been given a message, until it is released -/
  holder : T → Option W
  /-- the worker that has processed a message last -/
  ran : T → Option W
  stopped : Bool
  destroyed : Bool
  fault : Option Fault

namespace State

variable [DecidableEq W] [DecidableEq T]

def setWorker (s : State W T) (w : W) (x : Option (Worker T)) : State W T :=
  { s with worker := Function.update s.worker w x }

/-- `acquire_worker`, where a new worker comes to be at `new`, and its thread starts at once or later. -/
def acquireWorker (s : State W T) (new : W) (started : Bool) : W × State W T :=
  match s.freeWorkers.getLast? with
  | some w =>
    (w, { s with freeWorkers := s.freeWorkers.dropLast, busyWorkers := s.busyWorkers ++ [w] })
  | none =>
    (new, { s.setWorker new (some (if started then .idle else .starting)) with
      busyWorkers := s.busyWorkers ++ [new] })

/-- `Worker::run` -/
def run (s : State W T) (w : W) (task : T) : State W T :=
  match s.worker w with
  | some .joined => { s with fault := some .assertion }
  | some .starting =>
    { s.setWorker w (some (.lost task)) with holder := Function.update s.holder task (some w) }
  | _ => { s.setWorker w (some (.given task)) with holder := Function.update s.holder task (some w) }

def tryRun (s : State W T) (maxSize : Nat) (task : T) (new : W) (started : Bool) :
    Bool × State W T :=
  if s.busyWorkers.length < maxSize then
    (true, (s.acquireWorker new started).2.run (s.acquireWorker new started).1 task)
  else (false, s)

/-- `Worker::stop` -/
def stop (s : State W T) (w : W) : State W T :=
  if s.worker w = some .starting then { s with fault := some .blocked }
  else s.setWorker w ((s.worker w).map fun _ => .joined)

/-- `delete worker` -/
def delete (s : State W T) (w : W) : State W T :=
  if s.worker w = some .joined then s.setWorker w none else { s with fault := some .terminate }

/-- `release`, behind the lookup of the worker. -/
def releaseWorker (s : State W T) (minSize : Nat) (w : W) : State W T :=
  if s.freeWorkers.length < minSize then
    { s with busyWorkers := s.busyWorkers.erase w, freeWorkers := s.freeWorkers ++ [w] }
  else ({ s with busyWorkers := s.busyWorkers.erase w }.stop w).delete w

def release (s : State W T) (minSize : Nat) (task : T) : State W T :=
  match s.data task with
  | none => { s with fault := some .assertion }
  | some w =>
    if w ∈ s.busyWorkers then
      { s with
        finished := s.finished.erase task
        holder := Function.update s.holder task none }.releaseWorker minSize w
    else { s with fault := some .unlinked }

def stopWorkers (s : State W T) : State W T := { s.freeWorkers.foldl stop s with stopped := true }

/-- The destructor. -/
def destroy (s : State W T) : State W T :=
  { s.freeWorkers.foldl delete s with freeWorkers := [], destroyed := true }

/-- The thread of a worker starts, or goes on with its task. -/
def work (s : State W T) (w : W) : Option (State W T) :=
  match s.worker w with
  | some .starting => some (s.setWorker w (some .idle))
  | some (.given task) =>
    some { s.setWorker w (some (.processed task)) with ran := Function.update s.ran task (some w) }
  | some (.processed task) =>
    some { s.setWorker w (some (.tagged task)) with data := Function.update s.data task (some w) }
  | some (.tagged task) =>
    some { s.setWorker w (some .idle) with finished := s.finished ++ [task] }
  | _ => none

end State

inductive Action (W T : Type*)
  | tryRun (task : T) (new : W) (started : Bool)
  | release (task : T)
  /-- a step of a worker's thread -/
  | work (w : W)
  | stopWorkers
  | destroy
  deriving DecidableEq, Repr

variable [DecidableEq W] [DecidableEq T]

def enabledStep (minSize maxSize : Nat) (s : State W T) : Action W T → Option (State W T)
  | .tryRun task new started =>
    if s.holder task = none ∧ s.worker new = none then some (s.tryRun maxSize task new started).2
    else none
  | .release task => if task ∈ s.finished then some (s.release minSize task) else none
  | .work w => s.work w
  | .stopWorkers => if s.stopped then none else some s.stopWorkers
  -- when no task is running
  | .destroy =>
    if s.stopped ∧ ∀ w ∈ s.busyWorkers, s.worker w = some .idle then some s.destroy else none

def step (minSize maxSize : Nat) (s : State W T) (a : Action W T) : Option (State W T) :=
  if s.fault = none ∧ s.destroyed = false then enabledStep minSize maxSize s a else none

/-- The constructor has made a worker at each of the addresses. -/
def create (workers : List W) : State W T where
  freeWorkers := workers
  busyWorkers := []
  worker w := if w ∈ workers then some .starting else none
  data _ := none
  finished := []
  holder _ := none
  ran _ := none
  stopped := false
  destroyed := false
  fault := none

def machine (T : Type*) [DecidableEq T] (workers : List W) (maxSize : Nat) :
    Machine (State W T) (Action W T) :=
  ⟨create workers, step workers.length maxSize⟩

end ThreadPool

end Dumbo.Reactor
