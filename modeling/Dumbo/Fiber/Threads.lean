import Dumbo.Fiber.Scheduler
import Mathlib.Data.Fintype.Basic

/-!
# The schedulers of several threads

Each thread has a `fibers::scheduler` of its own, all with `algo::shared_work` or all with
`algo::work_stealing`, and all are there when the first step is taken. A step of a thread ends before its next
operation on a queue of ready workers, so that the other threads come between any two of them. Contexts create
fibers, yield, sleep, wait in the queues of primitives and are taken out of them, and end; which context a
primitive wakes and when is free, and so are the readings of the clock.
-/

namespace Dumbo.Fiber.Threads

open Transition
open Scheduler (TimePoint timeMax Launch)

/-- The algorithm that the schedulers of all threads have. -/
inductive Algo
  | sharedWork
  | workStealing
  deriving DecidableEq, Repr

/-- The `rqueue_` that a thread uses: all threads share the one of `shared_work`, `work_stealing` has one for
each. -/
def Algo.rqueue {T : Type} (algo : Algo) (t : T) : Option T :=
  match algo with
  | .sharedWork => none
  | .workStealing => some t

/-- The main context and the dispatcher of each thread, and the workers in the order of their creation. -/
inductive CtxId (T : Type)
  | main (t : T)
  | dispatcher (t : T)
  | worker (n : Nat)
  deriving DecidableEq, Repr

/-- `is_context( type::pinned_context)` -/
def CtxId.pinned {T : Type} : CtxId T → Bool
  | .main _ | .dispatcher _ => true
  | .worker _ => false

inductive Fault
  | assertion
  /-- the assertion of `context::set_ready` that the two contexts have one scheduler -/
  | foreign
  /-- a context has no scheduler, or the active one has not that of its thread -/
  | scheduler
  /-- `get_next_()` has no context -/
  | nullContext
  /-- `schedulers_` has an algorithm that is destroyed -/
  | dangling
  deriving DecidableEq, Repr

/-- The queue that links a context by its wait hook. -/
inductive Link
  | primitive (q : Nat)
  /-- the wait queue of the dispatcher, which `~scheduler` joins -/
  | dispatcher
  deriving DecidableEq, Repr

/-- Where a thread goes on behind `awakened`: with the code of the active context, or in `sleep2ready_`. -/
inductive Next
  | user
  | expiring (now : TimePoint)
  deriving DecidableEq, Repr

inductive ThreadPc (T : Type)
  /-- the active context runs its own code; the dispatcher is at the head of its loop -/
  | user
  /-- in `pick_next`, before the test of `rqueue_`; the context picked will ready `readyCtx` -/
  | picking (readyCtx : Option (CtxId T))
  /-- in `work_stealing::pick_next`, with nothing ready, before it chooses the thread to steal from -/
  | stealing (readyCtx : Option (CtxId T))
  /-- in `pick_next`, with a context out of a queue of ready workers -/
  | attaching (ctx : CtxId T) (readyCtx : Option (CtxId T))
  /-- in `awakened`, before it pushes the context -/
  | pushing (ctx : CtxId T) (next : Next)
  /-- in the loop of `sleep2ready_` -/
  | expiring (now : TimePoint)
  /-- in `suspend_until` -/
  | suspended (timePoint : TimePoint)
  /-- `~scheduler` has returned -/
  | destroyed
  deriving DecidableEq, Repr

structure Thread (T : Type) where
  active : CtxId T
  pc : ThreadPc T
  lqueue : List (CtxId T)
  workerQueue : List (CtxId T)
  sleepQueue : List (CtxId T)
  terminatedQueue : List (CtxId T)
  /-- `flag_` -/
  flag : Bool
  /-- `shutdown_` -/
  shutdown : Bool

structure State (T : Type) where
  thread : T → Thread T
  rqueue : Option T → List (CtxId T)
  /-- `scheduler_` -/
  scheduler : CtxId T → Option T
  waitHook : CtxId T → Option Link
  /-- `flag_terminated` -/
  terminated : CtxId T → Bool
  tp : CtxId T → TimePoint
  clock : TimePoint
  ncreated : Nat
  fault : Option Fault

def Next.pc {T : Type} : Next → ThreadPc T
  | .user => .user
  | .expiring now => .expiring now

namespace State

variable {T : Type}

/-- The first fault ends the run. -/
def fail (s : State T) (fault : Fault) : State T := { s with fault := s.fault.or (some fault) }

def require (s : State T) (p : Prop) [Decidable p] : State T := if p then s else s.fail .assertion

def ReadyLinked (s : State T) (ctx : CtxId T) : Prop := ∃ u, ctx ∈ (s.thread u).lqueue

def SleepLinked (s : State T) (ctx : CtxId T) : Prop := ∃ u, ctx ∈ (s.thread u).sleepQueue

def WorkerLinked (s : State T) (ctx : CtxId T) : Prop := ∃ u, ctx ∈ (s.thread u).workerQueue

def TerminatedLinked (s : State T) (ctx : CtxId T) : Prop := ∃ u, ctx ∈ (s.thread u).terminatedQueue

/-- What `attach_worker_context` and `detach_worker_context` check of the hooks. -/
def Unlinked (s : State T) (ctx : CtxId T) : Prop :=
  ¬ s.ReadyLinked ctx ∧ ¬ s.SleepLinked ctx ∧ ¬ s.TerminatedLinked ctx ∧ s.waitHook ctx = none

/-- What `~context` checks of the hooks. -/
def Destructible (s : State T) (ctx : CtxId T) : Prop :=
  ¬ s.ReadyLinked ctx ∧ ¬ s.SleepLinked ctx ∧ s.waitHook ctx = none

section Hooks

variable [DecidableEq T] [Fintype T]

instance (s : State T) (ctx : CtxId T) : Decidable (s.ReadyLinked ctx) := inferInstanceAs (Decidable (∃ _, _))
instance (s : State T) (ctx : CtxId T) : Decidable (s.SleepLinked ctx) := inferInstanceAs (Decidable (∃ _, _))
instance (s : State T) (ctx : CtxId T) : Decidable (s.WorkerLinked ctx) := inferInstanceAs (Decidable (∃ _, _))
instance (s : State T) (ctx : CtxId T) : Decidable (s.TerminatedLinked ctx) :=
  inferInstanceAs (Decidable (∃ _, _))
instance (s : State T) (ctx : CtxId T) : Decidable (s.Unlinked ctx) := inferInstanceAs (Decidable (_ ∧ _))
instance (s : State T) (ctx : CtxId T) : Decidable (s.Destructible ctx) := inferInstanceAs (Decidable (_ ∧ _))

end Hooks

variable [DecidableEq T]

def setThread (s : State T) (t : T) (x : Thread T) : State T :=
  { s with thread := Function.update s.thread t x }

def setPc (s : State T) (t : T) (pc : ThreadPc T) : State T := s.setThread t { s.thread t with pc := pc }

def setQueue (s : State T) (q : Option T) (l : List (CtxId T)) : State T :=
  { s with rqueue := Function.update s.rqueue q l }

/-- The thread switches to the context. -/
def setActive (s : State T) (t : T) (ctx : CtxId T) : State T := s.setThread t { s.thread t with active := ctx }

/-- `ctx->get_scheduler()`, which is to be the scheduler of the thread. -/
def getScheduler (s : State T) (t : T) (ctx : CtxId T) : State T :=
  if s.scheduler ctx = some t then s else s.fail .scheduler

def ownScheduler (s : State T) (t : T) : State T := s.getScheduler t (s.thread t).active

def waitLink (s : State T) (ctx : CtxId T) (link : Link) : State T :=
  { s with waitHook := Function.update s.waitHook ctx (some link) }

def waitUnlink (s : State T) (ctx : CtxId T) : State T :=
  { s with waitHook := Function.update s.waitHook ctx none }

/-- The unlinking of a hook, whichever queue of that kind links it. -/
def sleepUnlink (s : State T) (ctx : CtxId T) : State T :=
  { s with thread := fun u => { s.thread u with sleepQueue := (s.thread u).sleepQueue.erase ctx } }

def readyUnlink (s : State T) (ctx : CtxId T) : State T :=
  { s with thread := fun u => { s.thread u with lqueue := (s.thread u).lqueue.erase ctx } }

def workerUnlink (s : State T) (ctx : CtxId T) : State T :=
  { s with thread := fun u => { s.thread u with workerQueue := (s.thread u).workerQueue.erase ctx } }

def setScheduler (s : State T) (ctx : CtxId T) (scheduler : Option T) : State T :=
  { s with scheduler := Function.update s.scheduler ctx scheduler }

def workerLink (s : State T) (t : T) (ctx : CtxId T) : State T :=
  s.setThread t { s.thread t with workerQueue := (s.thread t).workerQueue ++ [ctx] }

def sleepLink (s : State T) (t : T) (ctx : CtxId T) (sleepTp : TimePoint) : State T :=
  let tp := Function.update s.tp ctx sleepTp
  { s with tp := tp }.setThread t
    { s.thread t with sleepQueue := (s.thread t).sleepQueue.orderedInsert (fun a b => tp a < tp b) ctx }

def terminatedLink (s : State T) (t : T) (ctx : CtxId T) : State T :=
  s.setThread t { s.thread t with terminatedQueue := (s.thread t).terminatedQueue ++ [ctx] }

variable [Fintype T]

/-- `attach_worker_context`, called on the scheduler of the active context. -/
def attach (s : State T) (t : T) (ctx : CtxId T) : State T :=
  let s := s.ownScheduler t
  let s := s.require (s.Unlinked ctx ∧ ¬ s.WorkerLinked ctx ∧ s.scheduler ctx = none)
  (s.setScheduler ctx (some t)).workerLink t ctx

/-- `context::detach`, which calls the scheduler of the context. -/
def detach (s : State T) (t : T) (ctx : CtxId T) : State T :=
  let s := s.require ((s.thread t).active ≠ ctx)
  let s := if s.scheduler ctx = none then s.fail .scheduler else s
  let s := s.require (s.Unlinked ctx ∧ ctx.pinned = false)
  (s.workerUnlink ctx).setScheduler ctx none

/-- `awakened`, up to the operation on `rqueue_`. -/
def awakened (s : State T) (t : T) (ctx : CtxId T) (next : Next) : State T :=
  if ctx.pinned then
    let s := s.require (¬ s.ReadyLinked ctx)
    s.setThread t { s.thread t with lqueue := (s.thread t).lqueue ++ [ctx], pc := next.pc }
  else (s.detach t ctx).setPc t (.pushing ctx next)

/-- `scheduler::set_ready` -/
def setReady (s : State T) (t : T) (ctx : CtxId T) : State T :=
  let s := s.require (s.terminated ctx = false)
  ((s.sleepUnlink ctx).readyUnlink ctx).awakened t ctx .user

/-- `context::set_ready`, called on the active context. -/
def contextSetReady (s : State T) (t : T) (ctx : CtxId T) : State T :=
  let s := s.require ((s.thread t).active ≠ ctx ∧ s.scheduler (s.thread t).active ≠ none ∧
    s.scheduler ctx ≠ none)
  if s.scheduler (s.thread t).active = s.scheduler ctx then (s.ownScheduler t).setReady t ctx
  else s.fail .foreign

/-- `context::resume`: the new active context readies the one passed along. -/
def resume (s : State T) (t : T) (ctx : CtxId T) (readyCtx : Option (CtxId T)) : State T :=
  let s := s.setActive t ctx
  match readyCtx with
  | none => s.setPc t .user
  | some r => (s.ownScheduler t).setReady t r

/-- `pick_next` has found nothing; the dispatcher alone checks the pointer. -/
def pickNull (s : State T) (t : T) : State T :=
  if (s.thread t).active = .dispatcher t then
    s.setPc t (.suspended ((s.thread t).sleepQueue.head?.elim timeMax s.tp))
  else s.fail .nullContext

/-- The rest of `pick_next` behind the test of `rqueue_`, and the switch. -/
def pickLocal (s : State T) (algo : Algo) (t : T) (readyCtx : Option (CtxId T)) : State T :=
  match (s.thread t).lqueue with
  | ctx :: rest => (s.setThread t { s.thread t with lqueue := rest }).resume t ctx readyCtx
  | [] =>
    if algo = .workStealing then s.setPc t (.stealing readyCtx)
    else s.pickNull t

/-- The thread takes the first context of a queue of ready workers. -/
def pop (s : State T) (t : T) (q : Option T) (ctx : CtxId T) (rest : List (CtxId T))
    (readyCtx : Option (CtxId T)) : State T :=
  (s.setQueue q rest).setPc t (.attaching ctx readyCtx)

/-- `pick_next`, with its test of `rqueue_`. -/
def pickNext (s : State T) (algo : Algo) (t : T) (readyCtx : Option (CtxId T)) : State T :=
  match s.rqueue (algo.rqueue t) with
  | ctx :: rest => s.pop t (algo.rqueue t) ctx rest readyCtx
  | [] => s.pickLocal algo t readyCtx

/-- `schedulers_[idx]->steal()`, which may lose its exchange to another pop. -/
def steal (s : State T) (t victim : T) (lost : Bool) (readyCtx : Option (CtxId T)) : State T :=
  if (s.thread victim).pc = .destroyed then s.fail .dangling
  else if lost then s.pickNull t
  else
    match s.rqueue (some victim) with
    | ctx :: rest => s.pop t (some victim) ctx rest readyCtx
    | [] => s.pickNull t

/-- One round of the loop in `sleep2ready_`. -/
def sleep2ready (s : State T) (t : T) (now : TimePoint) : State T :=
  match (s.thread t).sleepQueue with
  | [] => s.setPc t (.picking (some (.dispatcher t)))
  | ctx :: rest =>
    let s := s.require (ctx ≠ .dispatcher t ∧ s.terminated ctx = false ∧ ¬ s.ReadyLinked ctx)
    if s.tp ctx ≤ now then
      let s := { s with tp := Function.update s.tp ctx timeMax }.setThread t
        { s.thread t with sleepQueue := rest }
      s.awakened t ctx (.expiring now)
    else s.setPc t (.picking (some (.dispatcher t)))

/-- The next operation of a thread in a call of the scheduler. -/
def go (s : State T) (algo : Algo) (t : T) : Option (State T) :=
  match (s.thread t).pc with
  | .user | .stealing _ | .suspended _ | .destroyed => none
  | .picking readyCtx => some (s.pickNext algo t readyCtx)
  | .attaching ctx readyCtx => some (((s.setPc t .user).attach t ctx).resume t ctx readyCtx)
  | .pushing ctx next =>
    let q := algo.rqueue t
    some ((s.setQueue q (s.rqueue q ++ [ctx])).setPc t next.pc)
  | .expiring now => some (s.sleep2ready t now)

/-- The constructor of `fiber`, with `start_`. -/
def create (s : State T) (t : T) (policy : Launch) : State T :=
  let impl := .worker s.ncreated
  let s := { s with ncreated := s.ncreated + 1 }.attach t impl
  match policy with
  | .post => (s.ownScheduler t).setReady t impl
  | .dispatch => s.resume t impl (some (s.thread t).active)

def yield (s : State T) (t : T) : State T :=
  let s := s.ownScheduler t
  let active := (s.thread t).active
  let s := s.require (s.terminated active = false ∧ ¬ s.ReadyLinked active ∧ ¬ s.SleepLinked active)
  s.setPc t (.picking (some active))

/-- The active context is linked in a queue and suspended through the scheduler of `callee`. -/
def suspend (s : State T) (t : T) (link : Link) (callee : CtxId T) : State T :=
  let s := s.require (s.waitHook (s.thread t).active = none)
  ((s.waitLink (s.thread t).active link).getScheduler t callee).setPc t (.picking none)

/-- `wait_until`, called by `sleep_until`. -/
def waitUntil (s : State T) (t : T) (sleepTp : TimePoint) : State T :=
  let s := s.ownScheduler t
  let active := (s.thread t).active
  let s := s.require (s.terminated active = false ∧ ¬ s.SleepLinked active)
  (s.sleepLink t active sleepTp).setPc t (.picking none)

/-- A primitive takes a context out of its queue and readies it. -/
def wake (s : State T) (t : T) (ctx : CtxId T) : State T := (s.waitUnlink ctx).contextSetReady t ctx

/-- `context::set_terminated` of a context that no other joins, with `scheduler::set_terminated`. -/
def setTerminated (s : State T) (t : T) : State T :=
  let active := (s.thread t).active
  let s := { s with terminated := Function.update s.terminated active true }.ownScheduler t
  let s := s.require (active.pinned = false ∧ s.terminated active = true ∧ ¬ s.ReadyLinked active ∧
    ¬ s.SleepLinked active ∧ s.waitHook active = none)
  (s.terminatedLink t active).setPc t (.picking none)

def releaseTerminated (s : State T) (t : T) : List (CtxId T) → State T
  | [] => s
  | ctx :: rest =>
    let s := s.require (ctx.pinned = false ∧ s.terminated ctx = true ∧ ¬ s.ReadyLinked ctx ∧
      ¬ s.SleepLinked ctx)
    let s := s.workerUnlink ctx
    (s.setThread t { s.thread t with terminatedQueue := rest }).releaseTerminated t rest

/-- `~scheduler` up to the switch in `join`. -/
def destroy (s : State T) (t : T) : State T :=
  (s.setThread t { s.thread t with shutdown := true }).suspend t .dispatcher (.dispatcher t)

/-- `notify`, which only the dispatcher calls. -/
def notify (s : State T) (suspend : Bool) (t : T) : State T :=
  if suspend then s.setThread t { s.thread t with flag := true } else s

/-- The dispatcher leaves its loop and switches to the main context, which goes on in `~scheduler` and
`~context`. -/
def leave (s : State T) (t : T) : State T :=
  let s := s.releaseTerminated t (s.thread t).terminatedQueue
  let s := (s.setActive t (.main t)).waitUnlink (.main t)
  let s := s.require ((s.thread t).workerQueue = [] ∧ (s.thread t).terminatedQueue = [] ∧
    (s.thread t).sleepQueue = [])
  let s := s.require (s.Destructible (.dispatcher t) ∧ s.Destructible (.main t))
  s.setPc t .destroyed

/-- A round of the dispatcher, up to `sleep2ready_`. -/
def dispatch (s : State T) (suspend : Bool) (t : T) (now : TimePoint) : State T :=
  let s := { s with clock := now }
  if (s.thread t).shutdown then
    let s := s.notify suspend t
    if (s.thread t).workerQueue = [] then s.leave t
    else (s.releaseTerminated t (s.thread t).terminatedQueue).setPc t (.expiring now)
  else (s.releaseTerminated t (s.thread t).terminatedQueue).setPc t (.expiring now)

/-- `suspend_until` returns at once, after a notification or at its deadline. -/
def mayReturn (s : State T) (suspend : Bool) (t : T) (now : TimePoint) : Bool :=
  match (s.thread t).pc with
  | .suspended timePoint => !suspend || (s.thread t).flag || (timePoint != timeMax && decide (timePoint ≤ now))
  | _ => false

def suspendReturn (s : State T) (suspend : Bool) (t : T) (now : TimePoint) : State T :=
  { s with clock := now }.setThread t
    { s.thread t with flag := !suspend && (s.thread t).flag, pc := .user }

end State

inductive Action (T : Type)
  | create (t : T) (policy : Launch)
  | yield (t : T)
  | suspend (t : T) (q : Nat)
  | waitUntil (t : T) (sleepTp : TimePoint)
  | wake (t : T) (ctx : CtxId T)
  | setTerminated (t : T)
  | destroy (t : T)
  | dispatch (t : T) (now : TimePoint)
  | go (t : T)
  /-- the pop of a thread's own queue loses its exchange to a thief -/
  | lose (t : T)
  | steal (t victim : T) (lost : Bool)
  | suspendReturn (t : T) (now : TimePoint)
  deriving DecidableEq, Repr

section Steps

variable {T : Type}

/-- The active context of the thread runs code of its own. -/
def State.InUser (s : State T) (t : T) : Prop := (s.thread t).pc = .user ∧ (s.thread t).active ≠ .dispatcher t

variable [DecidableEq T]

instance (s : State T) (t : T) : Decidable (s.InUser t) := inferInstanceAs (Decidable (_ ∧ _))

/-- What `pick_next` will ready, in its test of `rqueue_`. -/
def ThreadPc.picks : ThreadPc T → Option (Option (CtxId T))
  | .picking readyCtx => some readyCtx
  | _ => none

/-- The same where it is about to steal. -/
def ThreadPc.steals : ThreadPc T → Option (Option (CtxId T))
  | .stealing readyCtx => some readyCtx
  | _ => none

/-- A primitive's queue links the context. -/
def State.waits (s : State T) (ctx : CtxId T) : Bool :=
  match s.waitHook ctx with
  | some (.primitive _) => true
  | _ => false

variable [Fintype T]

def enabled (algo : Algo) (suspend : Bool) (s : State T) : Action T → Bool
  | .create t _ | .yield t | .suspend t _ | .waitUntil t _ => s.InUser t
  | .wake t ctx => s.InUser t ∧ s.waits ctx
  | .setTerminated t => s.InUser t ∧ (s.thread t).active ≠ .main t
  | .destroy t => s.InUser t ∧ (s.thread t).active = .main t
  | .dispatch t now => (s.thread t).pc = .user ∧ (s.thread t).active = .dispatcher t ∧ s.clock ≤ now
  | .go t => (s.go algo t).isSome
  | .lose t => algo = .workStealing ∧ (s.thread t).pc.picks.isSome
  | .steal t victim _ => (s.thread t).pc.steals.isSome ∧ victim ≠ t
  | .suspendReturn t now => s.mayReturn suspend t now ∧ s.clock ≤ now

def perform (algo : Algo) (suspend : Bool) (s : State T) : Action T → State T
  | .create t policy => s.create t policy
  | .yield t => s.yield t
  | .suspend t q => s.suspend t (.primitive q) (s.thread t).active
  | .waitUntil t sleepTp => s.waitUntil t sleepTp
  | .wake t ctx => s.wake t ctx
  | .setTerminated t => s.setTerminated t
  | .destroy t => s.destroy t
  | .dispatch t now => s.dispatch suspend t now
  | .go t => (s.go algo t).getD s
  | .lose t => (s.thread t).pc.picks.elim s (s.pickLocal algo t)
  | .steal t victim lost => (s.thread t).pc.steals.elim s (s.steal t victim lost)
  | .suspendReturn t now => s.suspendReturn suspend t now

def step (algo : Algo) (suspend : Bool) (s : State T) (a : Action T) : Option (State T) :=
  if s.fault = none ∧ enabled algo suspend s a then some (perform algo suspend s a) else none

omit [DecidableEq T] [Fintype T] in
/-- Each thread runs its main context, and its dispatcher is ready. -/
def start : State T where
  thread t := ⟨.main t, .user, [.dispatcher t], [], [], [], false, false⟩
  rqueue _ := []
  scheduler
    | .main t | .dispatcher t => some t
    | .worker _ => none
  waitHook _ := none
  terminated _ := false
  tp _ := timeMax
  clock := 0
  ncreated := 0
  fault := none

variable (T) in
def machine (algo : Algo) (suspend : Bool) : Machine (State T) (Action T) := ⟨start, step algo suspend⟩

end Steps

end Dumbo.Fiber.Threads
