import Dumbo.Lib.Machine

/-!
# Cross-reactor calls

`Reactor::run_at` and `Reactor::run_at_async`, the receiving half of `Reactor::event_loop` and the
two message classes they use, for any number of reactors. One step is one action of the thread of
one reactor: the event loop (`active r = none`, the main or the dispatcher context has control) or
the fiber that has control. Fibers of one reactor are switched only where the code suspends,
yields or ends; steps of different reactors interleave freely. An inbox is the list of published
messages in claim order.
-/

namespace Dumbo.Reactor.Call

open Transition

abbrev Cpu := Nat
abbrev FiberId := Nat
abbrev MsgId := Nat

variable {ε ρ : Type}

/-- `cpu_`, `one_way_`, `return_`, `exception_` of `Message`, `result_` of the lambda messages and
`fiber_context_` of `FiberMessage` (`none` for a `OneWayLambdaMessage`). -/
structure Message (ε ρ : Type) where
  cpu : Cpu
  oneWay : Bool
  isReturn : Bool
  exception : Option ε
  result_ : ρ
  fiberContext : Option FiberId

def makeFiberLambdaMessage [Inhabited ρ] (cpu : Cpu) (f : FiberId) : Message ε ρ :=
  ⟨cpu, false, false, none, default, some f⟩

def makeOneWayLambdaMessage [Inhabited ρ] (cpu : Cpu) : Message ε ρ :=
  ⟨cpu, true, false, none, default, none⟩

/-- `process()` stores what the function returns or throws and sets `return_`. -/
def Message.process (msg : Message ε ρ) : Except ε ρ → Message ε ρ
  | .ok v => { msg with result_ := v, isReturn := true }
  | .error e => { msg with exception := some e, isReturn := true }

/-- `result()` rethrows a stored exception. -/
def Message.result (msg : Message ε ρ) : Except ε ρ :=
  match msg.exception with
  | some e => .error e
  | none => .ok msg.result_

inductive Status
  | ready | active | suspended | terminated
  deriving DecidableEq, Repr

/-- Where a fiber stands inside `run_at` or `run_at_async`. -/
inductive CallPc
  | made (target : Cpu) (oneWay : Bool)
  | sent
  | waiting
  deriving DecidableEq, Repr

/-- Where a fiber spawned by `process_fn` stands inside its closure. -/
inductive HandlerPc
  | start | inFn | processed | finished
  deriving DecidableEq, Repr

structure Fiber where
  cpu : Cpu
  status : Status
  linked : Bool
  handler : Option (MsgId × HandlerPc)
  call : Option (MsgId × CallPc)

inductive Fault
  | assertion | useAfterFree
  deriving DecidableEq, Repr

/-- What happens to one message, in the order in which it happens. -/
inductive Event (ε ρ : Type)
  | called (f : FiberId) (origin target : Cpu) (oneWay : Bool)
  | submitted (cpu : Cpu)
  | entered (h : FiberId) (cpu : Cpu)
  | processed (h : FiberId) (out : Except ε ρ)
  | resumed (f : FiberId)
  | returned (f : FiberId) (out : Except ε ρ)
  | deleted

structure State (ε ρ : Type) where
  fiber : FiberId → Fiber
  nfibers : Nat
  heap : MsgId → Option (Message ε ρ)
  nmsgs : Nat
  inbox : Cpu → List MsgId
  batch : Cpu → Nat
  active : Cpu → Option FiberId
  trace : MsgId → List (Event ε ρ)
  fault : Option Fault

namespace State

variable (s : State ε ρ)

def setFiber (f : FiberId) (x : Fiber) : State ε ρ :=
  { s with fiber := Function.update s.fiber f x }

def store (m : MsgId) (msg : Option (Message ε ρ)) : State ε ρ :=
  { s with heap := Function.update s.heap m msg }

def log (m : MsgId) (es : List (Event ε ρ)) : State ε ρ :=
  { s with trace := Function.update s.trace m (s.trace m ++ es) }

def fail (e : Fault) : State ε ρ := { s with fault := some e }

def setActive (r : Cpu) (f : Option FiberId) : State ε ρ :=
  { s with active := Function.update s.active r f }

/-- `SmpBase::submit_to`, with the effect of `MPSCQueue::send`. -/
def submitTo (cpu : Cpu) (m : MsgId) : State ε ρ :=
  { s with inbox := Function.update s.inbox cpu (s.inbox cpu ++ [m]) }

/-- A new fiber in the ready queue of reactor `r`. -/
def spawn (r : Cpu) (handler : Option (MsgId × HandlerPc)) : State ε ρ :=
  { s.setFiber s.nfibers ⟨r, .ready, false, handler, none⟩ with nfibers := s.nfibers + 1 }

/-- `Scheduler::suspend`. -/
def suspend (f : FiberId) (m : MsgId) : State ε ρ :=
  let x := s.fiber f
  if x.linked then s.fail .assertion
  else (s.setFiber f { x with status := .suspended, linked := true, call := some (m, .waiting) }).setActive
    x.cpu none

/-- `Scheduler::resume`. -/
def resume (f : FiberId) : State ε ρ :=
  let x := s.fiber f
  if x.linked then s.setFiber f { x with status := .ready, linked := false }
  else s.fail .assertion

def delete (m : MsgId) : State ε ρ := (s.store m none).log m [.deleted]

/-- `FiberMessage::finish` and `OneWayLambdaMessage::finish`. -/
def finish (m : MsgId) (msg : Message ε ρ) : State ε ρ :=
  if msg.oneWay then s.delete m
  else match msg.fiberContext with
    | some f => (s.resume f).log m [.resumed f]
    | none => s.fail .assertion

/-- `process_fn` of `Reactor::event_loop`. -/
def processFn (r : Cpu) (m : MsgId) : State ε ρ :=
  match s.heap m with
  | none => s.fail .useAfterFree
  | some msg => if msg.isReturn then s.finish m msg else s.spawn r (some (m, .start))

/-- The context that `context::active()` returns on the fiber's own thread. -/
abbrev hasControl (f : FiberId) : Prop := s.active (s.fiber f).cpu = some f

end State

/-- The fiber runs its own code: a client, or the function of the message it handles. -/
def Fiber.inUserCode (x : Fiber) : Bool :=
  match x.call, x.handler with
  | none, none => true
  | none, some (_, .inFn) => true
  | _, _ => false

/-- The fiber's function has returned. -/
def Fiber.atEnd (x : Fiber) : Bool :=
  match x.call, x.handler with
  | none, none => true
  | none, some (_, .finished) => true
  | _, _ => false

inductive Action (ε ρ : Type)
  | spawn (r : Cpu)
  | schedule (f : FiberId)
  | yield (f : FiberId)
  | runAt (f : FiberId) (target : Cpu)
  | runAtAsync (f : FiberId) (target : Cpu)
  | submit (f : FiberId)
  | suspend (f : FiberId)
  | return (f : FiberId)
  | receiveAll (r : Cpu)
  | deliver (r : Cpu)
  | processEnter (f : FiberId)
  | processExit (f : FiberId) (out : Except ε ρ)
  | complete (f : FiberId)
  | terminate (f : FiberId)

/-- `make_fiber_lambda_message` or `make_one_way_lambda_message` by fiber `f`. -/
def State.make [Inhabited ρ] (s : State ε ρ) (f : FiberId) (target : Cpu) (oneWay : Bool) : State ε ρ :=
  let x := s.fiber f
  let m := s.nmsgs
  let msg := if oneWay then makeOneWayLambdaMessage x.cpu else makeFiberLambdaMessage x.cpu f
  { ((s.store m (some msg)).setFiber f { x with call := some (m, .made target oneWay) }).log m
      [.called f x.cpu target oneWay] with nmsgs := m + 1 }

/-- One step of one reactor thread; `cpuNum` is the number of reactors. -/
def step [Inhabited ρ] (cpuNum : Nat) (s : State ε ρ) : Action ε ρ → Option (State ε ρ)
  | .spawn r => if r < cpuNum then some (s.spawn r none) else none
  | .schedule f =>
    let x := s.fiber f
    if f < s.nfibers ∧ x.status = .ready ∧ s.active x.cpu = none ∧ s.batch x.cpu = 0 then
      some ((s.setFiber f { x with status := .active }).setActive x.cpu (some f))
    else none
  | .yield f =>
    let x := s.fiber f
    if s.hasControl f ∧ x.inUserCode then
      some ((s.setFiber f { x with status := .ready }).setActive x.cpu none)
    else none
  | .runAt f target =>
    if s.hasControl f ∧ (s.fiber f).inUserCode ∧ target < cpuNum then some (s.make f target false)
    else none
  | .runAtAsync f target =>
    if s.hasControl f ∧ (s.fiber f).inUserCode ∧ target < cpuNum then some (s.make f target true)
    else none
  | .submit f =>
    let x := s.fiber f
    match x.call with
    | some (m, .made target oneWay) =>
      if s.hasControl f then
        some (((s.submitTo target m).setFiber f
          { x with call := if oneWay then none else some (m, .sent) }).log m [.submitted target])
      else none
    | _ => none
  | .suspend f =>
    match (s.fiber f).call with
    | some (m, .sent) => if s.hasControl f then some (s.suspend f m) else none
    | _ => none
  | .return f =>
    let x := s.fiber f
    match x.call with
    | some (m, .waiting) =>
      if s.hasControl f then
        if x.linked then some (s.fail .assertion)
        else match s.heap m with
          | none => some (s.fail .useAfterFree)
          | some msg =>
            some (((s.setFiber f { x with call := none }).log m [.returned f msg.result]).delete m)
      else none
    | _ => none
  | .receiveAll r =>
    if s.active r = none ∧ s.batch r = 0 then
      some { s with batch := Function.update s.batch r (s.inbox r).length }
    else none
  | .deliver r =>
    match s.batch r, s.inbox r with
    | k + 1, m :: rest =>
      if s.active r = none then
        some ({ s with inbox := Function.update s.inbox r rest
                       batch := Function.update s.batch r k }.processFn r m)
      else none
    | _, _ => none
  | .processEnter f =>
    let x := s.fiber f
    match x.handler with
    | some (m, .start) =>
      if s.hasControl f then
        if (s.heap m).isNone then some (s.fail .useAfterFree)
        else some ((s.setFiber f { x with handler := some (m, .inFn) }).log m [.entered f x.cpu])
      else none
    | _ => none
  | .processExit f out =>
    let x := s.fiber f
    match x.handler with
    | some (m, .inFn) =>
      if s.hasControl f ∧ x.call = none then
        match s.heap m with
        | none => some (s.fail .useAfterFree)
        | some msg =>
          -- a one-way function that throws ends the process in `std::terminate`
          if msg.oneWay ∧ out.isOk = false then none
          else some (((s.store m (some (msg.process out))).setFiber f
            { x with handler := some (m, .processed) }).log m [.processed f out])
      else none
    | _ => none
  | .complete f =>
    let x := s.fiber f
    match x.handler with
    | some (m, .processed) =>
      if s.hasControl f then
        match s.heap m with
        | none => some (s.fail .useAfterFree)
        | some msg =>
          let s' := s.setFiber f { x with handler := some (m, .finished) }
          if msg.oneWay then some (s'.finish m msg)
          else some ((s'.submitTo msg.cpu m).log m [.submitted msg.cpu])
      else none
    | _ => none
  | .terminate f =>
    let x := s.fiber f
    if s.hasControl f ∧ x.atEnd then
      some ((s.setFiber f { x with status := .terminated }).setActive x.cpu none)
    else none

/-- Before any fiber is started: no message, every inbox empty. -/
def initial : State ε ρ where
  fiber := fun _ => ⟨0, .terminated, false, none, none⟩
  nfibers := 0
  heap := fun _ => none
  nmsgs := 0
  inbox := fun _ => []
  batch := fun _ => 0
  active := fun _ => none
  trace := fun _ => []
  fault := none

def machine [Inhabited ρ] (cpuNum : Nat) : Machine (State ε ρ) (Action ε ρ) := ⟨initial, step cpuNum⟩

end Dumbo.Reactor.Call
