import Dumbo.Lib.Machine
import Mathlib.Data.List.Sort

/-!
# The fiber scheduler of one thread

`fibers::scheduler` with its queues, the algorithm that holds the ready contexts, and the calls that
switch the active context. Which waiter a synchronisation primitive wakes and when is free; so are
the readings of the clock. One step is what one context does up to the point where it calls the
scheduler again or another context is active.
-/

namespace Dumbo.Fiber.Scheduler

open Transition

abbrev CtxId := Nat
abbrev TimePoint := Nat

def mainCtx : CtxId := 0
def dispatcherCtx : CtxId := 1

/-- `steady_clock::time_point::max()` -/
def timeMax : TimePoint := 9223372036854775807

/-- The queue a context's wait hook is linked in. The slot of an unbuffered channel counts as a queue
of the channel. -/
inductive QueueId
  | primitive (q : Nat)
  /-- `wait_queue_` of a context -/
  | join (c : CtxId)
  deriving DecidableEq, Repr

/-- Where a context goes on when it is resumed. -/
inductive Pc
  | running
  | waitUntil (sleepTp : TimePoint)
  | joining (c : CtxId)
  deriving DecidableEq, Repr

inductive Launch
  | post | dispatch
  deriving DecidableEq, Repr

inductive AlgoKind
  | roundRobin | reactor
  deriving DecidableEq, Repr

/-- `round_robin` and the reactor's `Scheduler` keep the ready contexts in one intrusive list; they
differ in `suspend_until` and `notify`. -/
structure Algo where
  kind : AlgoKind
  ready : List CtxId
  deriving DecidableEq, Repr

namespace Algo

def awakened (algo : Algo) (ctx : CtxId) : Algo :=
  { algo with ready := algo.ready ++ [ctx] }

def pickNext (algo : Algo) : Option CtxId × Algo :=
  match algo.ready with
  | [] => (none, algo)
  | victim :: rest => (some victim, { algo with ready := rest })

end Algo

inductive Fault
  | assertion | nullContext | terminatedContext
  deriving DecidableEq, Repr

/-- The contexts that exist and who refers to them. -/
structure Registry where
  workerQueue : List CtxId
  terminatedQueue : List CtxId
  /-- `flag_terminated` -/
  terminated : CtxId → Bool
  useCount : CtxId → Nat
  /-- whether a `fiber` object still refers to the context -/
  joinable : CtxId → Bool
  /-- `contexts_` -/
  contexts : Nat
  ncreated : Nat

/-- What the contexts wait for. -/
structure Waits where
  waitHook : CtxId → Option QueueId
  /-- `wait_queue_` of each context, the contexts that join it -/
  waitQueue : CtxId → List CtxId
  pc : CtxId → Pc
  clock : TimePoint

structure State extends Registry, Waits where
  active : CtxId
  algo : Algo
  sleepQueue : List CtxId
  tp : CtxId → TimePoint
  fault : Option Fault

namespace State

def require (s : State) (p : Prop) [Decidable p] : State :=
  if p then s else { s with fault := some .assertion }

def awakened (s : State) (ctx : CtxId) : State :=
  let s := s.require (ctx ∉ s.algo.ready)
  { s with algo := s.algo.awakened ctx }

def setReady (s : State) (ctx : CtxId) : State :=
  let s := s.require (s.terminated ctx = false)
  let s := { s with sleepQueue := s.sleepQueue.erase ctx }
  -- ready_unlink
  let s := { s with algo := { s.algo with ready := s.algo.ready.erase ctx } }
  s.awakened ctx

/-- `context::resume`: the new active context readies the one passed along. -/
def resume (s : State) (ctx : CtxId) (readyCtx : Option CtxId) : State :=
  let s := { s with active := ctx }
  match readyCtx with
  | none => s
  | some r => s.setReady r

/-- `get_next_()->resume(..)`, which does not check the pointer. -/
def resumeNext (s : State) (readyCtx : Option CtxId) : State :=
  match s.algo.pickNext with
  | (none, _) => { s with fault := some .nullContext }
  | (some ctx, algo) =>
    if s.terminated ctx then { s with fault := some .terminatedContext }
    else { s with algo := algo }.resume ctx readyCtx

def waitLink (s : State) (ctx : CtxId) (q : QueueId) : State :=
  let s := s.require (s.waitHook ctx = none)
  let s := { s with waitHook := Function.update s.waitHook ctx (some q) }
  match q with
  | .primitive _ => s
  | .join c => { s with waitQueue := Function.update s.waitQueue c (s.waitQueue c ++ [ctx]) }

def waitUnlink (s : State) (ctx : CtxId) : State :=
  { s with
    waitHook := Function.update s.waitHook ctx none
    waitQueue := fun c => (s.waitQueue c).erase ctx }

/-- Insertion into the multiset ordered by `tp_`, behind the contexts of the same deadline. -/
def sleepLink (s : State) (ctx : CtxId) (sleepTp : TimePoint) : State :=
  let tp := Function.update s.tp ctx sleepTp
  { s with
    tp := tp
    sleepQueue := s.sleepQueue.orderedInsert (fun a b => tp a < tp b) ctx }

/-- `intrusive_ptr_release`, with the assertions of `~context`. -/
def release (s : State) (ctx : CtxId) : State :=
  let s := { s with useCount := Function.update s.useCount ctx (s.useCount ctx - 1) }
  if s.useCount ctx = 0 then
    let s := s.require (s.waitQueue ctx = [] ∧ ctx ∉ s.algo.ready ∧ ctx ∉ s.sleepQueue ∧
      s.waitHook ctx = none)
    { s with contexts := s.contexts - 1 }
  else s

/-- `impl_.reset()` of the `fiber` object. -/
def reset (s : State) (ctx : CtxId) : State :=
  if s.joinable ctx then
    { s with joinable := Function.update s.joinable ctx false }.release ctx
  else s

def releaseTerminated (s : State) : List CtxId → State
  | [] => { s with terminatedQueue := [] }
  | ctx :: rest =>
    let s := s.require (ctx ≠ mainCtx ∧ ctx ≠ dispatcherCtx ∧ s.terminated ctx ∧
      ctx ∉ s.algo.ready ∧ ctx ∉ s.sleepQueue)
    let s := { s with workerQueue := s.workerQueue.erase ctx, terminatedQueue := rest }
    (s.release ctx).releaseTerminated rest

def sleep2ready (s : State) (now : TimePoint) : List CtxId → State
  | [] => s
  | ctx :: rest =>
    let s := s.require (ctx ≠ dispatcherCtx ∧ s.terminated ctx = false ∧ ctx ∉ s.algo.ready)
    if s.tp ctx ≤ now then
      let s := { s with sleepQueue := rest, tp := Function.update s.tp ctx timeMax }
      (s.awakened ctx).sleep2ready now rest
    else s

/-- One round of the dispatcher's loop. Without a ready context the thread is suspended until the
next round. -/
def dispatch (s : State) (now : TimePoint) : State :=
  let s := { s with clock := now }
  let s := s.releaseTerminated s.terminatedQueue
  let s := s.sleep2ready now s.sleepQueue
  match s.algo.pickNext with
  | (none, _) => s
  | (some ctx, algo) => { s with algo := algo }.resume ctx (some dispatcherCtx)

def yield (s : State) : State :=
  let s := s.require (s.terminated s.active = false ∧ s.active ∉ s.algo.ready ∧
    s.active ∉ s.sleepQueue)
  s.resumeNext (some s.active)

/-- A primitive links the active context in its queue and suspends it. -/
def suspend (s : State) (q : Nat) : State :=
  (s.waitLink s.active (.primitive q)).resumeNext none

/-- `wait_until`, called by `sleep_until` or by a primitive that linked the active context. -/
def waitUntil (s : State) (q : Option Nat) (sleepTp : TimePoint) : State :=
  let s := match q with
    | none => s
    | some q => s.waitLink s.active (.primitive q)
  let s := s.require (s.terminated s.active = false ∧ s.active ∉ s.sleepQueue)
  let s := { s with pc := Function.update s.pc s.active (.waitUntil sleepTp) }
  (s.sleepLink s.active sleepTp).resumeNext none

/-- A primitive or `Scheduler::resume` takes a context out of its queue and readies it. -/
def wake (s : State) (ctx : CtxId) : State :=
  ((s.require (ctx ≠ s.active)).waitUnlink ctx).setReady ctx

def join (s : State) (c : CtxId) : State :=
  if s.terminated c then s.reset c
  else
    let s := s.waitLink s.active (.join c)
    { s with pc := Function.update s.pc s.active (.joining c) }.resumeNext none

def notifyJoiners (s : State) : List CtxId → State
  | [] => s
  | ctx :: rest => (s.wake ctx).notifyJoiners rest

/-- `scheduler::set_terminated` -/
def schedulerSetTerminated (s : State) : State :=
  let s := s.require (s.active ≠ mainCtx ∧ s.active ≠ dispatcherCtx ∧ s.terminated s.active ∧
    s.active ∉ s.algo.ready ∧ s.active ∉ s.sleepQueue ∧ s.waitHook s.active = none)
  { s with terminatedQueue := s.terminatedQueue ++ [s.active] }.resumeNext none

/-- `context::set_terminated` -/
def setTerminated (s : State) : State :=
  let s := { s with terminated := Function.update s.terminated s.active true }
  (s.notifyJoiners (s.waitQueue s.active)).schedulerSetTerminated

/-- The constructor of `fiber` with `attach_worker_context` and `start_`. -/
def create (s : State) (policy : Launch) : State :=
  let impl := s.ncreated
  let s := s.require (impl ∉ s.algo.ready ∧ impl ∉ s.sleepQueue ∧ impl ∉ s.terminatedQueue ∧
    s.waitHook impl = none ∧ impl ∉ s.workerQueue)
  let s := { s with
    ncreated := impl + 1
    contexts := s.contexts + 1
    useCount := Function.update s.useCount impl 2
    joinable := Function.update s.joinable impl true
    workerQueue := s.workerQueue ++ [impl] }
  match policy with
  | .post => s.setReady impl
  | .dispatch => s.resume impl (some s.active)

/-- The loop of `set_algo`; the list is what the old algorithm still holds. -/
def moveReady (s : State) : List CtxId → State
  | [] => s
  | ctx :: rest => (s.awakened ctx).moveReady rest

def setAlgo (s : State) (kind : AlgoKind) : State :=
  { s with algo := ⟨kind, []⟩ }.moveReady s.algo.ready

/-- The active context stands behind its call again. -/
def returned (s : State) : State :=
  { s with pc := Function.update s.pc s.active .running }

/-- The rest of `wait_until` and of the primitive that called it, or of `join`, at the clock reading
`now`. -/
def resumed (s : State) (now : TimePoint) : State :=
  let s := { s with clock := now }
  match s.pc s.active with
  | .running => s
  | .waitUntil sleepTp =>
    if now < sleepTp then s.returned else (s.waitUnlink s.active).returned
  | .joining c => ((s.waitUnlink s.active).reset c).returned

end State

inductive Action
  | create (policy : Launch)
  | detach (c : CtxId)
  | yield
  | suspend (q : Nat)
  | waitUntil (q : Option Nat) (sleepTp : TimePoint)
  | wake (c : CtxId)
  | join (c : CtxId)
  | setTerminated
  | setAlgo (kind : AlgoKind)
  | resumed (now : TimePoint)
  | dispatch (now : TimePoint)
  deriving DecidableEq, Repr

def start : State where
  active := mainCtx
  algo := ⟨.roundRobin, [dispatcherCtx]⟩
  sleepQueue := []
  tp := fun _ => timeMax
  terminatedQueue := []
  workerQueue := []
  terminated := fun _ => false
  waitHook := fun _ => none
  waitQueue := fun _ => []
  pc := fun _ => .running
  useCount := fun c => if c ≤ dispatcherCtx then 1 else 0
  joinable := fun _ => false
  contexts := 2
  ncreated := 2
  clock := 0
  fault := none

/-- The active context runs code of its own. -/
def State.InUser (s : State) : Prop :=
  s.active ≠ dispatcherCtx ∧ s.pc s.active = .running

instance (s : State) : Decidable s.InUser :=
  inferInstanceAs (Decidable (_ ∧ _))

def enabled (s : State) : Action → Bool
  | .create _ | .yield | .suspend _ | .waitUntil _ _ | .setAlgo _ => s.InUser
  | .detach c => s.InUser ∧ s.joinable c
  | .wake c => s.InUser ∧ s.waitHook c ≠ none
  | .join c => s.InUser ∧ s.joinable c ∧ c ≠ s.active
  | .setTerminated => s.InUser ∧ s.active ≠ mainCtx
  | .resumed now => s.active ≠ dispatcherCtx ∧ s.pc s.active ≠ .running ∧ s.clock ≤ now
  | .dispatch now => s.active = dispatcherCtx ∧ s.clock ≤ now

def perform (s : State) : Action → State
  | .create policy => s.create policy
  | .detach c => s.reset c
  | .yield => s.yield
  | .suspend q => s.suspend q
  | .waitUntil q sleepTp => s.waitUntil q sleepTp
  | .wake c => s.wake c
  | .join c => s.join c
  | .setTerminated => s.setTerminated
  | .setAlgo kind => s.setAlgo kind
  | .resumed now => s.resumed now
  | .dispatch now => s.dispatch now

def step (s : State) (a : Action) : Option State :=
  if enabled s a then some (perform s a) else none

def machine : Machine State Action := ⟨start, step⟩

end Dumbo.Fiber.Scheduler
