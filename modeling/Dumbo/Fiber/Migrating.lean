import Dumbo.Fiber.Scheduler

/-!
# The scheduler of one thread under a migrating algorithm

`fibers::scheduler` with `shared_work` or `work_stealing`. With no other thread to take part in the queue
the two are one: a worker context that is ready is detached and goes into a queue of pointers, the main
context and the dispatcher are linked by their ready hooks. As under the other algorithms, which waiter a
synchronisation primitive wakes and when is free, and so are the readings of the clock.
-/

namespace Dumbo.Fiber.Migrating

open Transition Scheduler

inductive Fault
  | assertion
  /-- a member of `scheduler` is called through a null pointer -/
  | nullScheduler
  /-- `get_next_()` has no context -/
  | nullContext
  deriving DecidableEq, Repr

structure State extends Waits where
  active : CtxId
  /-- `lqueue_`, which the ready hooks link -/
  lqueue : List CtxId
  /-- `rqueue_` -/
  rqueue : List CtxId
  /-- `scheduler_` is not null -/
  attached : CtxId → Bool
  workerQueue : List CtxId
  terminatedQueue : List CtxId
  /-- `flag_terminated` -/
  terminated : CtxId → Bool
  sleepQueue : List CtxId
  tp : CtxId → TimePoint
  ncreated : Nat
  fault : Option Fault

/-- `type::pinned_context` -/
def Pinned (ctx : CtxId) : Prop := ctx = mainCtx ∨ ctx = dispatcherCtx

instance (ctx : CtxId) : Decidable (Pinned ctx) := inferInstanceAs (Decidable (_ ∨ _))

namespace State

/-- The first fault ends the run. -/
def fail (s : State) (fault : Fault) : State := { s with fault := s.fault.or (some fault) }

def require (s : State) (p : Prop) [Decidable p] : State := if p then s else s.fail .assertion

/-- No hook links the context, as `attach_worker_context` and `detach_worker_context` check. -/
def Unlinked (s : State) (ctx : CtxId) : Prop :=
  ctx ∉ s.lqueue ∧ ctx ∉ s.sleepQueue ∧ ctx ∉ s.terminatedQueue ∧ s.waitHook ctx = none

instance (s : State) (ctx : CtxId) : Decidable (s.Unlinked ctx) := inferInstanceAs (Decidable (_ ∧ _))

def attach (s : State) (ctx : CtxId) : State :=
  let s := s.require (s.Unlinked ctx ∧ ctx ∉ s.workerQueue ∧ s.attached ctx = false)
  { s with attached := Function.update s.attached ctx true, workerQueue := s.workerQueue ++ [ctx] }

def detach (s : State) (ctx : CtxId) : State :=
  let s := s.require (s.active ≠ ctx ∧ s.attached ctx = true ∧ s.Unlinked ctx ∧ ¬ Pinned ctx)
  { s with attached := Function.update s.attached ctx false, workerQueue := s.workerQueue.erase ctx }

def awakened (s : State) (ctx : CtxId) : State :=
  if Pinned ctx then
    let s := s.require (ctx ∉ s.lqueue)
    { s with lqueue := s.lqueue ++ [ctx] }
  else
    let s := s.detach ctx
    { s with rqueue := s.rqueue ++ [ctx] }

def pickNext (s : State) : Option CtxId × State :=
  match s.rqueue with
  | ctx :: rest => (some ctx, { s with rqueue := rest }.attach ctx)
  | [] =>
    match s.lqueue with
    | ctx :: rest => (some ctx, { s with lqueue := rest })
    | [] => (none, s)

/-- `scheduler::set_ready` -/
def setReady (s : State) (ctx : CtxId) : State :=
  let s := s.require (s.terminated ctx = false)
  { s with sleepQueue := s.sleepQueue.erase ctx, lqueue := s.lqueue.erase ctx }.awakened ctx

/-- `context::set_ready`, called on the active context. -/
def contextSetReady (s : State) (ctx : CtxId) : State :=
  (s.require (s.active ≠ ctx ∧ s.attached s.active = true ∧ s.attached ctx = true)).setReady ctx

/-- `context::resume`: the new active context readies the one passed along. -/
def resume (s : State) (ctx : CtxId) (readyCtx : Option CtxId) : State :=
  let s := { s with active := ctx }
  match readyCtx with
  | none => s
  | some r => s.setReady r

/-- `get_next_()->resume(..)`, which does not check the pointer. -/
def resumeNext (s : State) (readyCtx : Option CtxId) : State :=
  match s.pickNext with
  | (none, s) => s.fail .nullContext
  | (some ctx, s) => s.resume ctx readyCtx

def waitLink (s : State) (ctx : CtxId) (q : QueueId) : State :=
  let s := s.require (s.waitHook ctx = none)
  let s := { s with waitHook := Function.update s.waitHook ctx (some q) }
  match q with
  | .primitive _ => s
  | .join c => { s with waitQueue := Function.update s.waitQueue c (s.waitQueue c ++ [ctx]) }

def waitUnlink (s : State) (ctx : CtxId) : State :=
  { s with
    waitHook := Function.update s.waitHook ctx none
    waitQueue := fun c => (s.waitQueue c).erase ctx }

def sleepLink (s : State) (ctx : CtxId) (sleepTp : TimePoint) : State :=
  let tp := Function.update s.tp ctx sleepTp
  { s with tp := tp, sleepQueue := s.sleepQueue.orderedInsert (fun a b => tp a < tp b) ctx }

def releaseTerminated (s : State) : List CtxId → State
  | [] => { s with terminatedQueue := [] }
  | ctx :: rest =>
    let s := s.require (¬ Pinned ctx ∧ s.terminated ctx = true ∧ ctx ∉ s.lqueue ∧ ctx ∉ s.sleepQueue)
    { s with workerQueue := s.workerQueue.erase ctx, terminatedQueue := rest }.releaseTerminated rest

def sleep2ready (s : State) (now : TimePoint) : List CtxId → State
  | [] => s
  | ctx :: rest =>
    let s := s.require (ctx ≠ dispatcherCtx ∧ s.terminated ctx = false ∧ ctx ∉ s.lqueue)
    if s.tp ctx ≤ now then
      let s := { s with sleepQueue := rest, tp := Function.update s.tp ctx timeMax }
      (s.awakened ctx).sleep2ready now rest
    else s

/-- One round of the dispatcher's loop. -/
def dispatch (s : State) (now : TimePoint) : State :=
  let s := { s with clock := now }
  let s := s.releaseTerminated s.terminatedQueue
  let s := s.sleep2ready now s.sleepQueue
  match s.pickNext with
  | (none, s) => s
  | (some ctx, s) => s.resume ctx (some dispatcherCtx)

def yield (s : State) : State :=
  let s := s.require (s.terminated s.active = false ∧ s.active ∉ s.lqueue ∧ s.active ∉ s.sleepQueue)
  s.resumeNext (some s.active)

/-- A primitive links the active context in its queue and suspends it. -/
def suspend (s : State) (q : Nat) : State :=
  (s.waitLink s.active (.primitive q)).resumeNext none

/-- `scheduler::wait_until` -/
def schedulerWaitUntil (s : State) (sleepTp : TimePoint) : State :=
  let s := s.require (s.terminated s.active = false ∧ s.active ∉ s.sleepQueue)
  let s := { s with pc := Function.update s.pc s.active (.waitUntil sleepTp) }
  (s.sleepLink s.active sleepTp).resumeNext none

/-- `wait_until`, called by `sleep_until` or by a primitive that links the active context. -/
def waitUntil (s : State) (q : Option Nat) (sleepTp : TimePoint) : State :=
  match q with
  | none => s.schedulerWaitUntil sleepTp
  | some q => (s.waitLink s.active (.primitive q)).schedulerWaitUntil sleepTp

/-- A primitive takes a context out of its queue and readies it. -/
def wake (s : State) (ctx : CtxId) : State := (s.waitUnlink ctx).contextSetReady ctx

/-- `context::join`, which suspends through the scheduler of the context that is joined. -/
def join (s : State) (c : CtxId) : State :=
  if s.terminated c then s
  else
    let s := s.waitLink s.active (.join c)
    let s := { s with pc := Function.update s.pc s.active (.joining c) }
    if s.attached c then s.resumeNext none else s.fail .nullScheduler

def notifyJoiners (s : State) : List CtxId → State
  | [] => s
  | ctx :: rest => (s.wake ctx).notifyJoiners rest

/-- `scheduler::set_terminated` -/
def schedulerSetTerminated (s : State) : State :=
  let s := s.require (¬ Pinned s.active ∧ s.terminated s.active = true ∧ s.active ∉ s.lqueue ∧
    s.active ∉ s.sleepQueue ∧ s.waitHook s.active = none)
  { s with terminatedQueue := s.terminatedQueue ++ [s.active] }.resumeNext none

/-- `context::set_terminated` -/
def setTerminated (s : State) : State :=
  let s := { s with terminated := Function.update s.terminated s.active true }
  (s.notifyJoiners (s.waitQueue s.active)).schedulerSetTerminated

/-- The constructor of `fiber`, with `start_`. -/
def create (s : State) (policy : Launch) : State :=
  let impl := s.ncreated
  let s := { s with ncreated := impl + 1 }.attach impl
  match policy with
  | .post => s.setReady impl
  | .dispatch => s.resume impl (some s.active)

/-- The rest of `wait_until` and of the primitive that called it, or of `join`, at the clock reading
`now`. -/
def resumed (s : State) (now : TimePoint) : State :=
  let s := { s with clock := now }
  let s := match s.pc s.active with
    | .running => s
    | .waitUntil sleepTp => if now < sleepTp then s else s.waitUnlink s.active
    | .joining _ => s.waitUnlink s.active
  { s with pc := Function.update s.pc s.active .running }

end State

inductive Action
  | create (policy : Launch)
  | yield
  | suspend (q : Nat)
  | waitUntil (q : Option Nat) (sleepTp : TimePoint)
  | wake (c : CtxId)
  | join (c : CtxId)
  | setTerminated
  | resumed (now : TimePoint)
  | dispatch (now : TimePoint)
  deriving DecidableEq, Repr

/-- The active context runs code of its own. -/
def State.InUser (s : State) : Prop := s.active ≠ dispatcherCtx ∧ s.pc s.active = .running

instance (s : State) : Decidable s.InUser := inferInstanceAs (Decidable (_ ∧ _))

def enabled (s : State) : Action → Bool
  | .create _ | .yield | .suspend _ | .waitUntil _ _ => s.InUser
  | .wake c => s.InUser ∧ s.waitHook c ≠ none
  | .join c => s.InUser ∧ ¬ Pinned c ∧ c < s.ncreated ∧ c ≠ s.active
  | .setTerminated => s.InUser ∧ s.active ≠ mainCtx
  | .resumed now => s.active ≠ dispatcherCtx ∧ s.pc s.active ≠ .running ∧ s.clock ≤ now
  | .dispatch now => s.active = dispatcherCtx ∧ s.clock ≤ now

def perform (s : State) : Action → State
  | .create policy => s.create policy
  | .yield => s.yield
  | .suspend q => s.suspend q
  | .waitUntil q sleepTp => s.waitUntil q sleepTp
  | .wake c => s.wake c
  | .join c => s.join c
  | .setTerminated => s.setTerminated
  | .resumed now => s.resumed now
  | .dispatch now => s.dispatch now

def step (s : State) (a : Action) : Option State :=
  if s.fault = none ∧ enabled s a then some (perform s a) else none

def start : State where
  active := mainCtx
  lqueue := [dispatcherCtx]
  rqueue := []
  attached := fun c => c ≤ dispatcherCtx
  workerQueue := []
  terminatedQueue := []
  terminated := fun _ => false
  sleepQueue := []
  tp := fun _ => timeMax
  waitHook := fun _ => none
  waitQueue := fun _ => []
  pc := fun _ => .running
  clock := 0
  ncreated := 2
  fault := none

def machine : Machine State Action := ⟨start, step⟩

end Dumbo.Fiber.Migrating
