import Dumbo.Fiber.Scheduler

/-!
# Fiber objects and the contexts behind them

The `fiber` objects of one thread beside its scheduler. Any context may construct, move, swap, join and
detach any object. Which contexts `release_terminated_` has taken, which destructors have run and which
calls of `join` have returned is written down in the order in which it happens.
-/

namespace Dumbo.Fiber

namespace Scheduler

/-- The contexts that are destroyed when `intrusive_ptr_release` is called on each of the list. -/
def destroyedBy (useCount : CtxId → Nat) : List CtxId → List CtxId
  | [] => []
  | ctx :: rest =>
    let later := destroyedBy (Function.update useCount ctx (useCount ctx - 1)) rest
    if useCount ctx - 1 = 0 then ctx :: later else later

end Scheduler

namespace Lifetime

open Transition
open Scheduler (CtxId TimePoint Launch QueueId Pc mainCtx dispatcherCtx destroyedBy)

abbrev ObjId := Nat

structure State where
  sched : Scheduler.State
  /-- `impl_` of each `fiber` object -/
  impl : ObjId → Option CtxId
  nobjs : Nat
  /-- the object on which a context that is suspended in `join` has called it -/
  target : CtxId → ObjId
  /-- what `release_terminated_` has taken from the terminated queue -/
  reaped : List CtxId
  destroyed : List CtxId
  /-- who has returned from joining whom -/
  joined : List (CtxId × CtxId)

namespace State

variable (s : State)

/-- An object that is not joinable, as `fiber()` constructs it. -/
def object (c : Option CtxId) : State :=
  { s with impl := Function.update s.impl s.nobjs c, nobjs := s.nobjs + 1 }

/-- `impl_.swap`, which leaves the reference counts alone. -/
def swap (o other : ObjId) : State :=
  { s with impl := Function.update (Function.update s.impl o (s.impl other)) other (s.impl o) }

/-- The move constructor -/
def move (other : ObjId) : State :=
  (s.object none).swap s.nobjs other

/-- The move assignment; `none` stands for `std::terminate`. -/
def assign (o other : ObjId) : Option State :=
  if s.impl o ≠ none then none
  else if o = other then some s
  else some (s.swap o other)

/-- `impl_.reset()` -/
def reset (o : ObjId) : State :=
  match s.impl o with
  | none => s
  | some c => { s with
    sched := s.sched.reset c
    impl := Function.update s.impl o none
    destroyed := s.destroyed ++ destroyedBy s.sched.useCount [c] }

/-- `context::join` has returned in the active context, which joined `c`. -/
def joinReturned (o : ObjId) (c : CtxId) : State :=
  let s := s.reset o
  { s with sched := s.sched.returned, joined := s.joined ++ [(s.sched.active, c)] }

/-- The calls of the scheduler in which no `fiber` object takes part. Synchronization primitives wake
the contexts that are linked in their own queues. -/
def mayCall : Scheduler.Action → Bool
  | .create _ | .detach _ | .join _ => false
  | .wake c => match s.sched.waitHook c with
    | some (.primitive _) => true
    | _ => false
  | .resumed _ => match s.sched.pc s.sched.active with
    | .joining _ => false
    | _ => true
  | _ => true

/-- A round of the dispatcher takes the whole terminated queue. -/
def reap : Scheduler.Action → State
  | .dispatch _ => { s with
    reaped := s.reaped ++ s.sched.terminatedQueue
    destroyed := s.destroyed ++ destroyedBy s.sched.useCount s.sched.terminatedQueue }
  | _ => s

end State

inductive Action
  | sched (a : Scheduler.Action)
  /-- `fiber()` -/
  | default
  /-- `fiber(policy, fn)` -/
  | create (policy : Launch)
  | move (other : ObjId)
  | assign (o other : ObjId)
  | swap (o other : ObjId)
  | detach (o : ObjId)
  | join (o : ObjId)
  /-- the rest of `join` in a context that is resumed -/
  | joinResumed
  deriving DecidableEq, Repr

def step (s : State) : Action → Option State
  | .sched a =>
    if s.mayCall a then
      (Scheduler.step s.sched a).map fun sched => { s.reap a with sched := sched }
    else none
  | .default => if s.sched.InUser then some (s.object none) else none
  | .create policy =>
    let impl := s.sched.ncreated
    (Scheduler.step s.sched (.create policy)).map fun sched =>
      { s.object (some impl) with sched := sched }
  | .move other => if s.sched.InUser ∧ other < s.nobjs then some (s.move other) else none
  | .assign o other =>
    if s.sched.InUser ∧ o < s.nobjs ∧ other < s.nobjs then s.assign o other else none
  | .swap o other =>
    if s.sched.InUser ∧ o < s.nobjs ∧ other < s.nobjs then some (s.swap o other) else none
  | .detach o =>
    -- on an object that is not joinable it throws
    if s.sched.InUser ∧ o < s.nobjs then some (s.reset o) else none
  | .join o =>
    if s.sched.InUser ∧ o < s.nobjs then
      match s.impl o with
      | none => some s
      | some c =>
        -- joining oneself throws as well
        if c = s.sched.active then some s
        else if s.sched.terminated c then some (s.joinReturned o c)
        else some { s with
          sched := s.sched.join c
          target := Function.update s.target s.sched.active o }
    else none
  | .joinResumed =>
    match s.sched.pc s.sched.active with
    | .joining c =>
      if s.sched.active ≠ dispatcherCtx then
        some ({ s with sched := s.sched.waitUnlink s.sched.active }.joinReturned
          (s.target s.sched.active) c)
      else none
    | _ => none

def start : State where
  sched := Scheduler.start
  impl := fun _ => none
  nobjs := 0
  target := fun _ => 0
  reaped := []
  destroyed := []
  joined := []

def machine : Machine State Action := ⟨start, step⟩

end Lifetime

end Dumbo.Fiber
