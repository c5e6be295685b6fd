import Dumbo.Fiber.Scheduler

/-!
# The event loop of a single reactor

`Application::run` and `Reactor::event_loop` on the main context of the thread, and the calls by which
its fibers submit messages and stop the reactor. The contexts are those of the fiber scheduler. With
one reactor only this thread submits to the inbox, so `receive_all` takes what the inbox holds.
-/

namespace Dumbo.Reactor.EventLoop

open Transition
open Fiber.Scheduler (CtxId mainCtx dispatcherCtx)

abbrev MsgId := Nat

/-- `one_way_`, `return_` and `fiber_context_` of a message. -/
structure Message where
  oneWay : Bool
  isReturn : Bool
  fiberContext : Option CtxId

/-- Where the main context stands. -/
inductive LoopPc
  /-- in code of its own, before `event_loop` -/
  | outside
  | test | poll | drain
  /-- inside `receive_all`, with the messages not passed to `process_fn` yet -/
  | receive (batch : List MsgId)
  /-- behind the loop -/
  | left
  deriving DecidableEq, Repr

structure State where
  sched : Fiber.Scheduler.State
  running : Bool
  message : MsgId → Message
  nmsgs : Nat
  inbox : List MsgId
  /-- the polled I/O messages: the fiber that `finish` resumes, if it resumes one -/
  ring : List (Option CtxId)
  loop : LoopPc
  /-- the message whose `process` a fiber was spawned for, until it is passed on or finished -/
  handler : CtxId → Option MsgId
  /-- the messages that `submit_to` was called with -/
  accepted : List MsgId
  processed : MsgId → Bool
  finished : MsgId → Bool
  /-- an assertion of `Scheduler::resume` has failed -/
  fault : Bool

/-- `fibers::DEFAULT_CONTEXTS` -/
def defaultContexts : Nat := 2

/-- The queue of the reactor's `Scheduler`. -/
def reactorQueue : Nat := 0

namespace State

variable (s : State)

def submitTo (m : MsgId) : State :=
  { s with inbox := s.inbox ++ [m], accepted := s.accepted ++ [m] }

def make (msg : Message) : State :=
  { s with message := Function.update s.message s.nmsgs msg, nmsgs := s.nmsgs + 1 }

/-- `Scheduler::resume` -/
def resume (c : CtxId) : State :=
  if s.sched.waitHook c = none then { s with fault := true }
  else { s with sched := s.sched.wake c }

/-- `finish` of a message that comes back, which resumes the fiber that waits for it. -/
def finish (m : MsgId) : State :=
  let s := { s with finished := Function.update s.finished m true }
  match (s.message m).fiberContext with
  | none => s
  | some c => s.resume c

/-- `process_fn` for a message of the inbox. -/
def processFn (m : MsgId) : State :=
  if (s.message m).isReturn then s.finish m
  else
    let ff := s.sched.ncreated
    { s with
      sched := (s.sched.create .post).reset ff
      handler := Function.update s.handler ff (some m) }

/-- `process` has returned: a one-way message is finished, any other is sent back. -/
def complete (c : CtxId) (m : MsgId) : State :=
  let s := { s with
    processed := Function.update s.processed m true
    handler := Function.update s.handler c none }
  if (s.message m).oneWay then { s with finished := Function.update s.finished m true }
  else
    let msg := { s.message m with isReturn := true }
    { s with message := Function.update s.message m msg }.submitTo m

end State

inductive Action
  /-- a context calls the scheduler -/
  | sched (a : Fiber.Scheduler.Action)
  | runAt
  | runAtAsync
  | stop
  /-- the function of the message of the active fiber returns -/
  | complete
  /-- `Application::run` up to the loop -/
  | run
  | test
  | poll (events : List (Option CtxId))
  | drain
  | receiveAll
  | receive
  | yield

/-- A fiber runs, or the main context before the loop. -/
def State.InFiber (s : State) : Prop :=
  s.sched.InUser ∧ (s.sched.active = mainCtx → s.loop = .outside)

instance (s : State) : Decidable s.InFiber :=
  inferInstanceAs (Decidable (_ ∧ _))

def State.atLoop (s : State) (pc : LoopPc) : Prop :=
  s.sched.active = mainCtx ∧ s.loop = pc

instance (s : State) (pc : LoopPc) : Decidable (s.atLoop pc) :=
  inferInstanceAs (Decidable (_ ∧ _))

/-- What the contexts may ask of the scheduler: the main context does not leave the loop, the
algorithm is not replaced, and a fiber ends when its function has returned. -/
def State.mayCall (s : State) : Fiber.Scheduler.Action → Bool
  | .setAlgo _ => false
  | .setTerminated => s.handler s.sched.active = none
  | _ => s.sched.active = mainCtx → s.loop = .outside

def step (s : State) : Action → Option State
  | .sched a =>
    if s.fault = false ∧ s.mayCall a then
      (Fiber.Scheduler.step s.sched a).map fun sched => { s with sched := sched }
    else none
  | .runAt =>
    if s.fault = false ∧ s.InFiber ∧ s.loop ≠ .outside then
      let s' := (s.make ⟨false, false, some s.sched.active⟩).submitTo s.nmsgs
      some { s' with sched := s'.sched.suspend reactorQueue }
    else none
  | .runAtAsync =>
    if s.fault = false ∧ s.InFiber then
      some ((s.make ⟨true, false, none⟩).submitTo s.nmsgs)
    else none
  | .stop => if s.fault = false ∧ s.InFiber then some { s with running := false } else none
  | .complete =>
    match s.handler s.sched.active with
    | some m => if s.fault = false ∧ s.InFiber then some (s.complete s.sched.active m) else none
    | none => none
  | .run =>
    if s.fault = false ∧ s.atLoop .outside ∧ s.sched.InUser then
      let s := (s.make ⟨true, false, none⟩).submitTo s.nmsgs
      some { s with running := true, sched := s.sched.setAlgo .reactor, loop := .test }
    else none
  | .test =>
    if s.fault = false ∧ s.atLoop .test then
      if s.running ∨ defaultContexts < s.sched.contexts then some { s with loop := .poll }
      else some { s with loop := .left }
    else none
  | .poll events =>
    if s.fault = false ∧ s.atLoop .poll then
      some { s with ring := s.ring ++ events, loop := .drain }
    else none
  | .drain =>
    if s.fault = false ∧ s.atLoop .drain then
      match s.ring with
      | [] => none
      | none :: rest => some { s with ring := rest }
      | some c :: rest => some ({ s with ring := rest }.resume c)
    else none
  | .receiveAll =>
    if s.fault = false ∧ s.atLoop .drain ∧ s.ring = [] then
      some { s with inbox := [], loop := .receive s.inbox }
    else none
  | .receive =>
    match s.loop with
    | .receive (m :: rest) =>
      if s.fault = false ∧ s.sched.active = mainCtx then
        some ({ s with loop := .receive rest }.processFn m)
      else none
    | _ => none
  | .yield =>
    if s.fault = false ∧ s.atLoop (.receive []) then
      some { s with sched := s.sched.yield, loop := .test }
    else none

def start : State where
  sched := Fiber.Scheduler.start
  running := false
  message := fun _ => ⟨true, false, none⟩
  nmsgs := 0
  inbox := []
  ring := []
  loop := .outside
  handler := fun _ => none
  accepted := []
  processed := fun _ => false
  finished := fun _ => false
  fault := false

def machine : Machine State Action := ⟨start, step⟩

end Dumbo.Reactor.EventLoop
