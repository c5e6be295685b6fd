import Dumbo.Lib.Machine
import Mathlib.Algebra.Order.Group.Int
import Mathlib.Tactic.Linarith

/-!
# Waiting for messages in a Linux reactor

The event loop of one Linux reactor with its poller, and the reactor calls in which its fibers wait
for a message: `run_at`, `File::read` and `write`, `File::process_batch`, `StreamServerSocket::accept`
and the transfers of a `StreamSocketConnection`. The kernel, the other reactors and the choice of the
next ready fiber are free. One step is what the thread does between two points where a fiber can be
suspended or the kernel can answer.
-/

namespace Dumbo.Reactor.LinuxIo

open Transition

abbrev FiberId := Nat
abbrev MsgId := Nat
abbrev Fd := Nat

inductive Message
  /-- `FiberLambdaMessage` of a fiber of this reactor -/
  | lambda (fiberContext : FiberId) (isReturn : Bool)
  /-- `OneWayLambdaMessage` -/
  | oneWay
  /-- a request of a fiber of another reactor -/
  | foreign
  /-- `FileSingleIOMessage` -/
  | singleIo (fiberContext : FiberId) (isReturn : Bool)
  /-- `FileMultiIOMessage` -/
  | multiIo (fiberContext : FiberId) (remaining : Nat)
  /-- `FiberIOMessage`, of an `accept` in progress or of a connection -/
  | fiberIo (fiberContext : FiberId) (count : Nat)
  deriving DecidableEq, Repr

def Message.isReturn : Message → Bool
  | .lambda _ r | .singleIo _ r => r
  | .oneWay | .foreign => false
  | .multiIo _ _ | .fiberIo _ _ => true

inductive Status
  | ready | active | terminated
  /-- linked in the wait queue of the reactor's scheduler, in the wait of a message -/
  | waiting (m : MsgId)
  /-- suspended by another primitive, which may have linked its wait hook -/
  | blocked (linked : Bool)
  deriving DecidableEq, Repr

/-- Where a fiber stands inside a call of the reactor. -/
inductive Pc
  | user
  | runAt (m : MsgId)
  | singleSubmit (m : MsgId)
  | singleWait (m : MsgId)
  | batchSubmit (m : MsgId) (total done : Nat)
  | batchWait (m : MsgId) (total done submitted : Nat)
  | accept (socket : Fd)
  | acceptWait (socket : Fd) (m : MsgId)
  | transfer (connection : Fd)
  deriving DecidableEq, Repr

structure Fiber where
  status : Status
  pc : Pc
  /-- the message whose `process` this fiber was spawned for -/
  handler : Option MsgId

inductive Socket
  | closed
  | server
  | connection (message : MsgId)
  deriving DecidableEq, Repr

inductive LoopPc
  /-- inside `IOPoller::poll`, with the descriptors reported so far -/
  | poll (reported : List Fd)
  | drain
  /-- inside `receive_all`, with the number of messages left in the batch -/
  | receive (left : Nat)
  | yielded
  deriving DecidableEq, Repr

inductive Fault
  | assertion | useAfterFree
  deriving DecidableEq, Repr

structure State where
  fiber : FiberId → Fiber
  nfibers : Nat
  heap : MsgId → Option Message
  nmsgs : Nat
  inbox : List MsgId
  /-- messages of this reactor's fibers submitted to other reactors -/
  remote : List MsgId
  /-- accepted file operations of each message whose completion event is outstanding -/
  aio : MsgId → Nat
  ring : List MsgId
  /-- `data.ptr` of each registered descriptor, the eventfd apart -/
  epoll : Fd → Option MsgId
  socket : Fd → Socket
  active : Option FiberId
  loop : LoopPc
  /-- the calls of `Scheduler::resume`: the message that finishes, the status of its fiber -/
  resumes : List (MsgId × Status)
  /-- the waiting `accept` calls that `epoll_ctl` rejected -/
  rejected : List Fd
  fault : Option Fault

def ringSize : Nat := 16384
def batchSize : Nat := 512

/-- `--n` on a `size_t`. -/
def predSize (n : Nat) : Nat := (n + (2 ^ 64 - 1)) % 2 ^ 64

namespace State

variable (s : State)

def setFiber (f : FiberId) (x : Fiber) : State :=
  { s with fiber := Function.update s.fiber f x }

def setStatus (f : FiberId) (st : Status) : State := s.setFiber f { s.fiber f with status := st }

def setPc (f : FiberId) (pc : Pc) : State := s.setFiber f { s.fiber f with pc := pc }

def store (m : MsgId) (msg : Option Message) : State :=
  { s with heap := Function.update s.heap m msg }

/-- A new message; its address is `s.nmsgs`. -/
def alloc (msg : Message) : State := { s.store s.nmsgs (some msg) with nmsgs := s.nmsgs + 1 }

def register (fd : Fd) (data : Option MsgId) : State :=
  { s with epoll := Function.update s.epoll fd data }

def setSocket (fd : Fd) (x : Socket) : State :=
  { s with socket := Function.update s.socket fd x }

def submitAio (m : MsgId) (n : Nat) : State :=
  { s with aio := Function.update s.aio m (s.aio m + n) }

def spawn (handler : Option MsgId) : State :=
  { s.setFiber s.nfibers ⟨.ready, .user, handler⟩ with nfibers := s.nfibers + 1 }

/-- `Scheduler::suspend` of the active fiber, in the wait of `m`. -/
def suspend (f : FiberId) (m : MsgId) (pc : Pc) : State :=
  { s.setFiber f { s.fiber f with status := .waiting m, pc := pc } with active := none }

/-- `Scheduler::resume(fiber_context_)`, called by `finish` of `m`. -/
def resume (m : MsgId) (f : FiberId) : State :=
  let s' := { s with resumes := s.resumes ++ [(m, (s.fiber f).status)] }
  match (s.fiber f).status with
  | .waiting _ | .blocked true => s'.setStatus f .ready
  | _ => { s' with fault := some .assertion }

/-- `finish` of the message classes. -/
def finish (m : MsgId) : Message → State
  | .lambda f _ | .singleIo f _ => s.resume m f
  | .oneWay => s.store m none
  | .foreign => s
  | .multiIo f remaining =>
    let s' := s.store m (some (.multiIo f (predSize remaining)))
    if predSize remaining = 0 then s'.resume m f else s'
  | .fiberIo f count =>
    let s' := s.store m (some (.fiberIo f (predSize count)))
    if predSize count = 0 then s'.resume m f else s'

/-- `process_fn` of `event_loop`. -/
def processFn (m : MsgId) : State :=
  match s.heap m with
  | none => { s with fault := some .useAfterFree }
  | some msg => if msg.isReturn then s.finish m msg else s.spawn (some m)

end State

/-- What `::accept` answers. -/
inductive AcceptResult
  | connection (fd : Fd)
  | wouldBlock
  | error

inductive Action
  /-- the next deterministic step of the event loop -/
  | eventLoop
  | pollSocket (fd : Fd)
  | pollFile (m : MsgId)
  | schedule (f : FiberId)
  | yield
  | block (linked : Bool)
  | wake (f : FiberId)
  | spawn
  | terminate
  | handlerEnd
  | runAt (remote : Bool)
  | runAtReturn
  | runAtAsync (remote : Bool)
  | remoteReply (m : MsgId)
  | remoteRequest
  | fileIo
  | processBatch (total : Nat)
  | ioSubmit (res : Int)
  | ioReturn
  | listen (fd : Fd)
  | closeServer (fd : Fd)
  | accept (fd : Fd)
  | acceptResult (r : AcceptResult)
  | acceptContinue
  | transfer (fd : Fd)
  | transferResult (res : Int)
  | closeConnection (fd : Fd)

def EAGAIN : Int := 11

/-- The steps of the event loop and of the poller. -/
def stepLoop (s : State) : Action → Option State
  | .eventLoop =>
    match s.loop with
    | .poll _ => some { s with loop := .drain }
    | .drain =>
      match s.ring with
      | m :: rest => some ({ s with ring := rest }.processFn m)
      | [] => some { s with loop := .receive s.inbox.length }
    | .receive (n + 1) =>
      match s.inbox with
      | m :: rest => some ({ s with inbox := rest, loop := .receive n }.processFn m)
      | [] => none
    | .receive 0 => some { s with loop := .yielded }
    | .yielded => some { s with loop := .poll [] }
  | .pollSocket fd =>
    match s.loop, s.epoll fd with
    | .poll reported, some m =>
      if fd ∉ reported ∧ reported.length < batchSize ∧ s.ring.length < ringSize then
        some { s with ring := s.ring ++ [m], loop := .poll (reported ++ [fd]) }
      else none
    | _, _ => none
  | .pollFile m =>
    match s.loop with
    | .poll _ =>
      if 0 < s.aio m ∧ s.ring.length < ringSize then
        let s' := { s with ring := s.ring ++ [m], aio := Function.update s.aio m (s.aio m - 1) }
        match s.heap m with
        | some (.singleIo f _) => some (s'.store m (some (.singleIo f true)))
        | some (.multiIo _ _) => some s'
        | _ => some { s' with fault := some .useAfterFree }
      else none
    | _ => none
  | .schedule f =>
    if s.loop = .yielded ∧ (s.fiber f).status = .ready then
      some { s.setStatus f .active with active := some f }
    else none
  -- the dispatcher: a timed wait ends
  | .wake f =>
    match s.loop, (s.fiber f).status with
    | .yielded, .blocked _ => some (s.setStatus f .ready)
    | _, _ => none
  | _ => none

/-- The steps of the other reactors. -/
def stepRemote (s : State) : Action → Option State
  | .remoteReply m =>
    match s.heap m with
    | some (.lambda f _) =>
      if m ∈ s.remote then
        some { s.store m (some (.lambda f true)) with
          remote := s.remote.erase m, inbox := s.inbox ++ [m] }
      else none
    | _ => none
  | .remoteRequest => some { s.alloc .foreign with inbox := s.inbox ++ [s.nmsgs] }
  | _ => none

/-- The steps of the active fiber outside of the I/O calls. -/
def stepFiber (s : State) (f : FiberId) : Action → Option State
  | .yield => if (s.fiber f).pc = .user then some { s.setStatus f .ready with active := none } else none
  | .block linked =>
    if (s.fiber f).pc = .user then some { s.setStatus f (.blocked linked) with active := none }
    else none
  | .wake g =>
    match (s.fiber g).status with
    | .blocked _ => some (s.setStatus g .ready)
    | _ => none
  | .spawn => some (s.spawn none)
  | .terminate =>
    if (s.fiber f).pc = .user ∧ (s.fiber f).handler = none then
      some { s.setStatus f .terminated with active := none }
    else none
  -- the rest of the fiber function in `process_fn`, after the call of `process`
  | .handlerEnd =>
    match (s.fiber f).pc, (s.fiber f).handler with
    | .user, some m =>
      let s' := { s.setFiber f ⟨.terminated, .user, none⟩ with active := none }
      match s.heap m with
      | some (.lambda g _) =>
        some { s'.store m (some (.lambda g true)) with inbox := s.inbox ++ [m] }
      | some .oneWay => some (s'.finish m .oneWay)
      | some .foreign => some s'
      | _ => some { s' with fault := some .useAfterFree }
    | _, _ => none
  | .runAt remote =>
    if (s.fiber f).pc = .user then
      let s' := (s.alloc (.lambda f false)).suspend f s.nmsgs (.runAt s.nmsgs)
      if remote then some { s' with remote := s.remote ++ [s.nmsgs] }
      else some { s' with inbox := s.inbox ++ [s.nmsgs] }
    else none
  | .runAtReturn =>
    match (s.fiber f).pc with
    | .runAt m => some ((s.store m none).setPc f .user)
    | _ => none
  | .runAtAsync remote =>
    if (s.fiber f).pc = .user then
      if remote then some s else some { s.alloc .oneWay with inbox := s.inbox ++ [s.nmsgs] }
    else none
  | _ => none

/-- `File::process_single_io` and `File::process_batch`. -/
def stepFile (s : State) (f : FiberId) : Action → Option State
  | .fileIo =>
    if (s.fiber f).pc = .user then
      some ((s.alloc (.singleIo f false)).setPc f (.singleSubmit s.nmsgs))
    else none
  | .processBatch total =>
    if (s.fiber f).pc = .user then
      some ((s.alloc (.multiIo f total)).setPc f (.batchSubmit s.nmsgs total 0))
    else none
  | .ioSubmit res =>
    match (s.fiber f).pc with
    | .singleSubmit m =>
      if res < 0 then some ((s.store m none).setPc f .user)
      else if res = 0 then some s
      else if res = 1 then some ((s.submitAio m 1).suspend f m (.singleWait m))
      else none
    | .batchSubmit m total done =>
      if done < total then
        if res ≤ 0 then some ((s.store m none).setPc f .user)
        else if res ≤ total - done ∧ res < 2 ^ 31 then
          some (((s.store m (some (.multiIo f res.toNat))).submitAio m res.toNat).suspend f m
            (.batchWait m total done res.toNat))
        else none
      else none
    | _ => none
  | .ioReturn =>
    match (s.fiber f).pc with
    | .singleWait m => some ((s.store m none).setPc f .user)
    | .batchWait m total done submitted => some (s.setPc f (.batchSubmit m total (done + submitted)))
    | .batchSubmit m total done =>
      if done < total then none else some ((s.store m none).setPc f .user)
    | _ => none
  | _ => none

/-- `StreamServerSocket` and `StreamSocketConnection`. A destructor runs when no call on the object
is in progress. -/
def stepSocket (s : State) (f : FiberId) : Action → Option State
  | .listen fd =>
    if (s.fiber f).pc = .user ∧ s.socket fd = .closed then some (s.setSocket fd .server) else none
  | .closeServer fd =>
    if (s.fiber f).pc = .user ∧ s.socket fd = .server ∧
        (∀ g < s.nfibers, (s.fiber g).pc ≠ .accept fd ∧
          ∀ m < s.nmsgs, (s.fiber g).pc ≠ .acceptWait fd m) then
      some ((s.register fd none).setSocket fd .closed)
    else none
  | .accept fd =>
    if (s.fiber f).pc = .user ∧ s.socket fd = .server then some (s.setPc f (.accept fd)) else none
  | .acceptResult r =>
    match (s.fiber f).pc with
    | .accept fd =>
      match r with
      | .connection cfd =>
        if s.socket cfd = .closed then
          match s.epoll cfd with
          -- the constructor of the connection closes the descriptor and throws
          | some _ => some ((s.register cfd none).setPc f .user)
          | none =>
            some ((((s.alloc (.fiberIo f 1)).register cfd (some s.nmsgs)).setSocket cfd
              (.connection s.nmsgs)).setPc f .user)
        else none
      | .wouldBlock =>
        match s.epoll fd with
        -- EEXIST
        | some _ => some { s.setPc f .user with rejected := s.rejected ++ [fd] }
        | none =>
          some (((s.alloc (.fiberIo f 1)).register fd (some s.nmsgs)).suspend f s.nmsgs
            (.acceptWait fd s.nmsgs))
      | .error => some (s.setPc f .user)
    | _ => none
  -- the message leaves its scope, the loop goes on
  | .acceptContinue =>
    match (s.fiber f).pc with
    | .acceptWait fd m => some ((s.store m none).setPc f (.accept fd))
    | _ => none
  | .transfer fd =>
    match (s.fiber f).pc, s.socket fd with
    | .user, .connection m =>
      match s.heap m with
      | some (.fiberIo g _) =>
        if g = f then some (s.setPc f (.transfer fd))
        else some { s with fault := some .assertion }
      | _ => some { s with fault := some .useAfterFree }
    | _, _ => none
  | .transferResult res =>
    match (s.fiber f).pc with
    | .transfer fd =>
      match s.socket fd with
      | .connection m =>
        if res = EAGAIN then some (s.suspend f m (.transfer fd)) else some (s.setPc f .user)
      | _ => none
    | _ => none
  | .closeConnection fd =>
    match (s.fiber f).pc, s.socket fd with
    | .user, .connection m =>
      if ∀ g < s.nfibers, (s.fiber g).pc ≠ .transfer fd then
        some (((s.register fd none).store m none).setSocket fd .closed)
      else none
    | _, _ => none
  | _ => none

/-- The union of the step functions: the active fiber or the event loop moves, and the other
reactors always can. -/
def step (s : State) (a : Action) : Option State :=
  if s.fault.isSome then none
  else
    (stepRemote s a).or <|
      match s.active with
      | none => stepLoop s a
      | some f => ((stepFiber s f a).or (stepFile s f a)).or (stepSocket s f a)

/-- `Application::run`: the message of the application waits in the inbox, the event loop starts. -/
def initial : State where
  fiber := fun _ => ⟨.terminated, .user, none⟩
  nfibers := 0
  heap := fun m => if m = 0 then some .oneWay else none
  nmsgs := 1
  inbox := [0]
  remote := []
  aio := fun _ => 0
  ring := []
  epoll := fun _ => none
  socket := fun _ => .closed
  active := none
  loop := .poll []
  resumes := []
  rejected := []
  fault := none

def machine : Machine State Action := ⟨initial, step⟩

end Dumbo.Reactor.LinuxIo
