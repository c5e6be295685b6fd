import Dumbo.Lib.Machine
import Mathlib.Data.List.Basic

/-!
# A worker of the thread pool

`detail::Worker` and the reactor thread that calls its `run` and `stop`. One step is one access of one
thread to the mutex, the condition variable or the fields they protect; the steps of the two threads
interleave freely, and the condition variable may wake the worker without a notification.
-/

namespace Dumbo.Reactor.Worker

open Transition

/-- A message by its identity, with `cpu_`. -/
structure Task where
  id : Nat
  cpu : Nat
  deriving DecidableEq, Repr

inductive Thread
  | worker | reactor
  deriving DecidableEq, Repr

/-- Where the worker's thread stands in its function. -/
inductive WorkerPc
  /-- before `mutex_` is taken for the first time -/
  | start
  /-- at the head of the loop -/
  | clear
  /-- in `cv_.wait`, about to evaluate the predicate -/
  | check
  | blocked
  /-- awake, about to take `mutex_` again -/
  | woken
  /-- behind `cv_.wait` -/
  | work
  | submit
  | exit
  | done
  deriving DecidableEq, Repr

/-- Where the reactor's thread stands in `run` or `stop`. -/
inductive ReactorPc
  | idle
  | runLock (task : Task)
  | runSet (task : Task)
  | runUnlock (task : Task)
  | runNotify (task : Task)
  /-- `run` has returned and the message has not come back -/
  | awaiting (task : Task)
  | stopLock | stopSet | stopUnlock | stopNotify
  | join
  | stopped
  deriving DecidableEq, Repr

structure State where
  mutex : Option Thread
  task : Option Task
  stop : Bool
  finished : Bool
  ready : Bool
  worker : WorkerPc
  reactor : ReactorPc
  /-- the tasks that `run` has stored -/
  given : List Task
  processed : List Task
  /-- the calls of `submit_to` -/
  submitted : List (Nat × Task)
  /-- `BOOST_ASSERT(task_)` has failed -/
  fault : Bool
  deriving DecidableEq, Repr

inductive Action
  | worker
  | reactor
  | run (task : Task)
  | stop
  | spurious
  deriving DecidableEq, Repr

/-- The function of the worker's thread. -/
def workerStep (s : State) : Option State :=
  match s.worker with
  | .start =>
    if s.mutex = none then some { s with mutex := some .worker, worker := .clear } else none
  | .clear => some { s with ready := false, worker := .check }
  | .check =>
    if s.ready then some { s with worker := .work }
    else some { s with mutex := none, worker := .blocked }
  | .blocked => none
  | .woken =>
    if s.mutex = none then some { s with mutex := some .worker, worker := .check } else none
  | .work =>
    if s.stop then some { s with worker := .exit }
    else match s.task with
      | none => some { s with fault := true }
      | some task => some { s with processed := s.processed ++ [task], worker := .submit }
  | .submit =>
    match s.task with
    | none => some { s with fault := true }
    | some task => some { s with submitted := s.submitted ++ [(task.cpu, task)], worker := .clear }
  | .exit => some { s with finished := true, mutex := none, worker := .done }
  | .done => none

/-- `cv_.notify_one()` -/
def State.notifyOne (s : State) : State :=
  if s.worker = .blocked then { s with worker := .woken } else s

/-- The rest of `run` and of `stop`. -/
def reactorStep (s : State) : Option State :=
  match s.reactor with
  | .idle => none
  | .runLock task =>
    if s.mutex = none then some { s with mutex := some .reactor, reactor := .runSet task } else none
  | .runSet task =>
    some { s with
      task := some task, ready := true, given := s.given ++ [task], reactor := .runUnlock task }
  | .runUnlock task => some { s with mutex := none, reactor := .runNotify task }
  | .runNotify task => some { s.notifyOne with reactor := .awaiting task }
  | .awaiting _ =>
    -- the message comes back in the inbox of its reactor
    if s.submitted.length = s.given.length then some { s with reactor := .idle } else none
  | .stopLock =>
    if s.mutex = none then some { s with mutex := some .reactor, reactor := .stopSet } else none
  | .stopSet =>
    some { s with stop := true, ready := true, task := none, reactor := .stopUnlock }
  | .stopUnlock => some { s with mutex := none, reactor := .stopNotify }
  | .stopNotify => some { s.notifyOne with reactor := .join }
  | .join => if s.worker = .done then some { s with reactor := .stopped } else none
  | .stopped => none

def step (s : State) : Action → Option State
  | .worker => workerStep s
  | .reactor => reactorStep s
  | .run task => if s.reactor = .idle then some { s with reactor := .runLock task } else none
  | .stop => if s.reactor = .idle then some { s with reactor := .stopLock } else none
  | .spurious => if s.worker = .blocked then some { s with worker := .woken } else none

/-- The constructor of `Worker` has created the thread. -/
def start : State where
  mutex := none
  task := none
  stop := false
  finished := false
  ready := false
  worker := .start
  reactor := .idle
  given := []
  processed := []
  submitted := []
  fault := false

def machine : Machine State Action := ⟨start, step⟩

end Dumbo.Reactor.Worker
