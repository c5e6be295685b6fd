import Dumbo.Fiber.SharedState

/-!
# Promises, packaged tasks and futures

The objects that hold shared states: a `promise` or a `packaged_task` owns one, and a `future` or some
copies of a `shared_future` refer to it. A task function runs between two steps of its fiber, which may
do anything there.
-/

namespace Dumbo.Fiber

open Transition Monitored SharedState

namespace Promise

inductive Kind
  | promise
  | packagedTask
  deriving DecidableEq, Repr

/-- A `promise` or a `packaged_task`. -/
structure Owner where
  kind : Kind
  obtained : Bool
  state : Option Nat
  deriving DecidableEq, Repr

/-- A `future` or a `shared_future`. -/
structure Future where
  shared : Bool
  state : Option Nat
  deriving DecidableEq, Repr

/-- Which futures refer to a shared state. -/
inductive Stage (F H : Type*)
  /-- none has been obtained -/
  | fresh
  | unique (h : H)
  | shared
  /-- the fiber has called `get` of the `future` -/
  | taken (f : F)
  deriving DecidableEq, Repr

variable {F P H V E : Type*}

abbrev Core (F V E : Type*) :=
  Monitored.State F Nat (SharedState V E) (Call V E) WaitKind (Result V E)

structure State (F P H V E : Type*) where
  core : Core F V E
  /-- the shared states are the smaller numbers -/
  next : Nat
  owners : P → Option Owner
  futures : H → Option Future
  /-- the task functions that a fiber runs, by their shared states -/
  running : F → List Nat
  thrown : List (F × Exception E)
  /-- the shared states whose future has been obtained -/
  retrieved : List Nat
  stage : Nat → Stage F H

namespace State

def initial (clock : Nat) : State F P H V E :=
  ⟨.initial (fun _ => .create) clock, 0, fun _ => none, fun _ => none, fun _ => [], [], [],
    fun _ => .fresh⟩

def throws (s : State F P H V E) (f : F) (e : Exception E) : State F P H V E :=
  { s with thrown := (f, e) :: s.thrown }

section Owners

variable [DecidableEq P]

def setOwner (s : State F P H V E) (p : P) (x : Option Owner) : State F P H V E :=
  { s with owners := Function.update s.owners p x }

/-- Construct an object with a shared state of its own. -/
def create (s : State F P H V E) (p : P) (kind : Kind) : State F P H V E :=
  { s.setOwner p (some ⟨kind, false, some s.next⟩) with next := s.next + 1 }

def moveConstruct (s : State F P H V E) (p q : P) (x : Owner) : State F P H V E :=
  (s.setOwner p (some x)).setOwner q (some ⟨x.kind, false, none⟩)

def swap (s : State F P H V E) (p q : P) (x y : Owner) : State F P H V E :=
  (s.setOwner p (some y)).setOwner q (some x)

end Owners

section Futures

variable [DecidableEq H]

def setFuture (s : State F P H V E) (h : H) (x : Option Future) : State F P H V E :=
  { s with futures := Function.update s.futures h x }

/-- Say which futures refer to a shared state. -/
def refers (s : State F P H V E) (state : Option Nat) (stage : Stage F H) : State F P H V E :=
  match state with
  | some i => { s with stage := Function.update s.stage i stage }
  | none => s

/-- Construct a future from another or assign another to it, which loses its shared state. -/
def moveFuture (s : State F P H V E) (h g : H) (shared : Bool) (y : Future) : State F P H V E :=
  ((s.setFuture h (some ⟨shared, y.state⟩)).setFuture g (some ⟨y.shared, none⟩)).refers y.state
    (if shared then .shared else .unique h)

variable [DecidableEq P]

def getFuture (s : State F P H V E) (f : F) (p : P) (h : H) (x : Owner) : State F P H V E :=
  if x.obtained then s.throws f .futureAlreadyRetrieved
  else
    match x.state with
    | none =>
      s.throws f (if x.kind = .promise then .promiseUninitialized else .packagedTaskUninitialized)
    | some i =>
      { (s.setOwner p (some { x with obtained := true })).setFuture h (some ⟨false, some i⟩) with
        retrieved := i :: s.retrieved
        stage := Function.update s.stage i (.unique h) }

end Futures

section Calls

variable [DecidableEq F]

def call (s : State F P H V E) (f : F) (i : Nat) (a : Call V E) : State F P H V E :=
  { s with core := s.core.call f i a }

/-- Call the shared state of an object, if it has one. -/
def callOr (s : State F P H V E) (f : F) (state : Option Nat) (a : Call V E) (e : Exception E) :
    State F P H V E :=
  match state with
  | some i => s.call f i a
  | none => s.throws f e

/-- The destructor of an owner. -/
def abandon (s : State F P H V E) (f : F) (x : Owner) : State F P H V E :=
  match x.state with
  | some i => s.call f i .ownerDestroyed
  | none => s

/-- Move assignment through a temporary object, which is destroyed with what `p` has owned. -/
def moveAssign [DecidableEq P] (s : State F P H V E) (f : F) (p q : P) (x y : Owner) :
    State F P H V E :=
  ((s.setOwner p (some y)).setOwner q (some ⟨y.kind, false, none⟩)).abandon f x

def setRunning (s : State F P H V E) (f : F) (states : List Nat) : State F P H V E :=
  { s with running := Function.update s.running f states }

/-- `packaged_task::operator()`, up to the task function. -/
def invoke (s : State F P H V E) (f : F) (x : Owner) : State F P H V E :=
  match x.state with
  | some i => s.setRunning f (i :: s.running f)
  | none => s.throws f .packagedTaskUninitialized

/-- `packaged_task::reset`; the old shared state is destroyed with a temporary object. -/
def reset [DecidableEq P] (s : State F P H V E) (f : F) (p : P) (x : Owner) : State F P H V E :=
  match x.state with
  | some _ => (s.create p x.kind).abandon f x
  | none => s.throws f .packagedTaskUninitialized

/-- `get`, before which a `future` loses its shared state. -/
def get [DecidableEq H] (s : State F P H V E) (f : F) (h : H) (y : Future) : State F P H V E :=
  match y.state with
  | some i =>
    if y.shared then s.call f i (.wait (.get false))
    else ((s.setFuture h (some ⟨false, none⟩)).refers (some i) (.taken f)).call f i (.wait (.get true))
  | none => s.throws f .futureUninitialized

end Calls

end State

inductive Action (F P H V E : Type*)
  | newOwner (p : P) (kind : Kind)
  /-- a `packaged_task` without a function -/
  | newTask (p : P)
  | moveConstruct (p q : P)
  | moveAssign (f : F) (p q : P)
  | swap (p q : P)
  | destroy (f : F) (p : P)
  | getFuture (f : F) (p : P) (h : H)
  | setValue (f : F) (p : P) (value : V)
  | setException (f : F) (p : P) (except : Exception E)
  | invoke (f : F) (p : P)
  /-- the task function returns or throws -/
  | returns (f : F) (result : Except (Exception E) V)
  | reset (f : F) (p : P)
  | newFuture (h : H) (shared : Bool)
  | moveFuture (h g : H) (shared : Bool)
  | assignFuture (h g : H)
  | copyFuture (h g : H)
  | copyAssign (h g : H)
  | share (f : F) (h g : H)
  | destroyFuture (h : H)
  | wait (f : F) (h : H) (timeoutTime : Option Nat)
  | get (f : F) (h : H)
  | getExceptionPtr (f : F) (h : H)
  /-- a step of a call, of the scheduler or of the clock -/
  | run (b : Monitored.Action F Nat (Call V E))

variable [DecidableEq F] [DecidableEq P] [DecidableEq H]

namespace State

/-- The fiber is in no call of a shared state. -/
def free (s : State F P H V E) (f : F) : Bool :=
  match s.core.task f with
  | .idle => true
  | _ => false

/-- An object, for a fiber that calls it. -/
def ownerOf (s : State F P H V E) (f : F) (p : P) (kind : Kind) : Option Owner :=
  (s.owners p).filter fun x => s.free f && x.kind = kind

def futureOf (s : State F P H V E) (f : F) (h : H) : Option Future :=
  (s.futures h).filter fun _ => s.free f

end State

def step (s : State F P H V E) : Action F P H V E → Option (State F P H V E)
  | .newOwner p kind => if s.owners p = none then some (s.create p kind) else none
  | .newTask p =>
    if s.owners p = none then some (s.setOwner p (some ⟨.packagedTask, false, none⟩)) else none
  | .moveConstruct p q =>
    if s.owners p = none then (s.owners q).map fun x => s.moveConstruct p q x else none
  | .moveAssign f p q =>
    (s.owners q).bind fun y =>
    (s.ownerOf f p y.kind).bind fun x =>
    if p = q then some s else some (s.moveAssign f p q x y)
  | .swap p q =>
    (s.owners p).bind fun x =>
    (s.owners q).bind fun y =>
    if x.kind = y.kind then some (s.swap p q x y) else none
  | .destroy f p =>
    (s.owners p).bind fun x =>
    if s.free f then some ((s.setOwner p none).abandon f x) else none
  | .getFuture f p h =>
    (s.owners p).bind fun x =>
    if s.free f ∧ s.futures h = none then some (s.getFuture f p h x) else none
  | .setValue f p value =>
    (s.ownerOf f p .promise).map fun x => s.callOr f x.state (.setValue value) .promiseUninitialized
  | .setException f p except =>
    (s.ownerOf f p .promise).map fun x => s.callOr f x.state (.setException except) .promiseUninitialized
  | .invoke f p => (s.ownerOf f p .packagedTask).map fun x => s.invoke f x
  | .returns f result =>
    match s.running f with
    | i :: states =>
      if s.free f then
        some ((s.setRunning f states).call f i
          (match result with
            | .ok value => .runValue value
            | .error except => .setException except))
      else none
    | [] => none
  | .reset f p => (s.ownerOf f p .packagedTask).map fun x => s.reset f p x
  | .newFuture h shared =>
    if s.futures h = none then some (s.setFuture h (some ⟨shared, none⟩)) else none
  | .moveFuture h g shared =>
    (s.futures g).bind fun y =>
    if s.futures h = none ∧ (shared || !y.shared) then some (s.moveFuture h g shared y) else none
  | .assignFuture h g =>
    (s.futures h).bind fun x =>
    (s.futures g).bind fun y =>
    if x.shared || !y.shared then some (if h = g then s else s.moveFuture h g x.shared y) else none
  | .copyFuture h g =>
    (s.futures g).bind fun y =>
    if s.futures h = none ∧ y.shared then some (s.setFuture h (some y)) else none
  | .copyAssign h g =>
    (s.futures h).bind fun x =>
    (s.futures g).bind fun y =>
    if x.shared ∧ y.shared then some (s.setFuture h (some y)) else none
  | .share f h g =>
    (s.futures g).bind fun y =>
    if s.futures h = none ∧ !y.shared then
      some (if y.state = none then s.throws f .futureUninitialized else s.moveFuture h g true y)
    else none
  | .destroyFuture h => if s.futures h = none then none else some (s.setFuture h none)
  | .wait f h timeoutTime =>
    (s.futureOf f h).map fun y => s.callOr f y.state (.wait (.wait timeoutTime)) .futureUninitialized
  | .get f h => (s.futureOf f h).map fun y => s.get f h y
  | .getExceptionPtr f h =>
    (s.futureOf f h).map fun y => s.callOr f y.state (.wait .getExceptionPtr) .futureUninitialized
  | .run b =>
    match b with
    | .call _ _ _ => none
    | b => (Monitored.step methods s.core b).map fun core => { s with core := core }

def machine (F P H V E : Type*) [DecidableEq F] [DecidableEq P] [DecidableEq H] (clock : Nat) :
    Machine (State F P H V E) (Action F P H V E) :=
  ⟨.initial clock, step⟩

/-- What a step finds and does. -/
inductive Acted (s : State F P H V E) : Action F P H V E → State F P H V E → Prop
  | newOwner {p kind} : s.owners p = none → Acted s (.newOwner p kind) (s.create p kind)
  | newTask {p} : s.owners p = none →
      Acted s (.newTask p) (s.setOwner p (some ⟨.packagedTask, false, none⟩))
  | moveConstruct {p q x} : s.owners p = none → s.owners q = some x →
      Acted s (.moveConstruct p q) (s.moveConstruct p q x)
  | moveSelf {f p} : Acted s (.moveAssign f p p) s
  | moveAssign {f p q x y} : s.core.task f = .idle → s.owners p = some x → s.owners q = some y → p ≠ q →
      Acted s (.moveAssign f p q) (s.moveAssign f p q x y)
  | swap {p q x y} : s.owners p = some x → s.owners q = some y → Acted s (.swap p q) (s.swap p q x y)
  | destroy {f p x} : s.core.task f = .idle → s.owners p = some x →
      Acted s (.destroy f p) ((s.setOwner p none).abandon f x)
  | getFuture {f p h x} : s.owners p = some x → s.futures h = none →
      Acted s (.getFuture f p h) (s.getFuture f p h x)
  | setValue {f p x value} : s.core.task f = .idle → s.owners p = some x →
      Acted s (.setValue f p value) (s.callOr f x.state (.setValue value) .promiseUninitialized)
  | setException {f p x except} : s.core.task f = .idle → s.owners p = some x →
      Acted s (.setException f p except) (s.callOr f x.state (.setException except) .promiseUninitialized)
  | invoke {f p x} : s.owners p = some x → Acted s (.invoke f p) (s.invoke f x)
  | returns {f result i states a} : s.core.task f = .idle → s.running f = i :: states →
      a.sets = some result → Acted s (.returns f result) ((s.setRunning f states).call f i a)
  | reset {f p x} : s.core.task f = .idle → s.owners p = some x → Acted s (.reset f p) (s.reset f p x)
  | newFuture {h shared} : s.futures h = none →
      Acted s (.newFuture h shared) (s.setFuture h (some ⟨shared, none⟩))
  | moveFuture {h g shared y} : s.futures h = none → s.futures g = some y → (shared || !y.shared) →
      Acted s (.moveFuture h g shared) (s.moveFuture h g shared y)
  | assignSelf {h} : Acted s (.assignFuture h h) s
  | assignFuture {h g x y} : s.futures h = some x → s.futures g = some y → (x.shared || !y.shared) →
      h ≠ g → Acted s (.assignFuture h g) (s.moveFuture h g x.shared y)
  | copyFuture {h g y} : s.futures g = some y → y.shared →
      Acted s (.copyFuture h g) (s.setFuture h (some y))
  | copyAssign {h g y} : s.futures g = some y → y.shared →
      Acted s (.copyAssign h g) (s.setFuture h (some y))
  | shareThrows {f h g} : Acted s (.share f h g) (s.throws f .futureUninitialized)
  | share {f h g y} : s.futures h = none → s.futures g = some y →
      Acted s (.share f h g) (s.moveFuture h g true y)
  | destroyFuture {h} : Acted s (.destroyFuture h) (s.setFuture h none)
  | wait {f h y timeoutTime} : s.core.task f = .idle → s.futures h = some y →
      Acted s (.wait f h timeoutTime)
        (s.callOr f y.state (.wait (.wait timeoutTime)) .futureUninitialized)
  | get {f h y} : s.core.task f = .idle → s.futures h = some y → Acted s (.get f h) (s.get f h y)
  | getExceptionPtr {f h y} : s.core.task f = .idle → s.futures h = some y →
      Acted s (.getExceptionPtr f h) (s.callOr f y.state (.wait .getExceptionPtr) .futureUninitialized)
  | run {b core} : (∀ f i a, b ≠ .call f i a) → Monitored.step methods s.core b = some core →
      Acted s (.run b) { s with core := core }

variable {s t : State F P H V E} {f : F} {p : P} {h : H} {x : Owner} {y : Future}

omit [DecidableEq F] [DecidableEq P] [DecidableEq H] in
theorem free_iff : s.free f = true ↔ s.core.task f = .idle := by
  rw [State.free]
  split
  · rename_i htask
    exact ⟨fun _ => htask, fun _ => rfl⟩
  · rename_i hnot
    exact ⟨fun h => absurd h Bool.false_ne_true, fun h => absurd h hnot⟩

omit [DecidableEq F] [DecidableEq P] [DecidableEq H] in
theorem ownerOf_eq {kind : Kind} (hx : s.ownerOf f p kind = some x) :
    s.core.task f = .idle ∧ s.owners p = some x := by
  rw [State.ownerOf, Option.filter_eq_some_iff, Bool.and_eq_true] at hx
  exact ⟨free_iff.mp hx.2.1, hx.1⟩

omit [DecidableEq F] [DecidableEq P] [DecidableEq H] in
theorem futureOf_eq (hy : s.futureOf f h = some y) : s.core.task f = .idle ∧ s.futures h = some y := by
  rw [State.futureOf, Option.filter_eq_some_iff] at hy
  exact ⟨free_iff.mp hy.2, hy.1⟩

theorem acted {b : Action F P H V E} (hs : step s b = some t) : Acted s b t := by
  cases b <;> simp only [step, Option.bind_eq_some_iff, Option.map_eq_some_iff,
    Option.ite_none_right_eq_some, Option.some.injEq] at hs
  case newOwner p kind => exact hs.2 ▸ .newOwner hs.1
  case newTask p => exact hs.2 ▸ .newTask hs.1
  case moveConstruct p q =>
    obtain ⟨hp, x, hq, rfl⟩ := hs
    exact .moveConstruct hp hq
  case moveAssign f p q =>
    obtain ⟨y, hq, x, hx, hs⟩ := hs
    obtain ⟨hfree, hp⟩ := ownerOf_eq hx
    split_ifs at hs with hpq
    · subst hpq
      exact Option.some.inj hs ▸ .moveSelf
    · exact Option.some.inj hs ▸ .moveAssign hfree hp hq hpq
  case swap p q =>
    obtain ⟨x, hp, y, hq, _, rfl⟩ := hs
    exact .swap hp hq
  case destroy f p =>
    obtain ⟨x, hp, hfree, rfl⟩ := hs
    exact .destroy (free_iff.mp hfree) hp
  case getFuture f p h =>
    obtain ⟨x, hp, ⟨_, hh⟩, rfl⟩ := hs
    exact .getFuture hp hh
  case setValue f p value =>
    obtain ⟨x, hx, rfl⟩ := hs
    exact .setValue (ownerOf_eq hx).1 (ownerOf_eq hx).2
  case setException f p except =>
    obtain ⟨x, hx, rfl⟩ := hs
    exact .setException (ownerOf_eq hx).1 (ownerOf_eq hx).2
  case invoke f p =>
    obtain ⟨x, hx, rfl⟩ := hs
    exact .invoke (ownerOf_eq hx).2
  case returns f result =>
    split at hs
    · rename_i i states hrunning
      rw [Option.ite_none_right_eq_some, Option.some.injEq] at hs
      cases result with
      | ok value => exact hs.2 ▸ .returns (free_iff.mp hs.1) hrunning rfl
      | error except => exact hs.2 ▸ .returns (free_iff.mp hs.1) hrunning rfl
    · exact absurd hs (by simp)
  case reset f p =>
    obtain ⟨x, hx, rfl⟩ := hs
    exact .reset (ownerOf_eq hx).1 (ownerOf_eq hx).2
  case newFuture h shared => exact hs.2 ▸ .newFuture hs.1
  case moveFuture h g shared =>
    obtain ⟨y, hg, ⟨hh, hkind⟩, rfl⟩ := hs
    exact .moveFuture hh hg hkind
  case assignFuture h g =>
    obtain ⟨x, hh, y, hg, hkind, rfl⟩ := hs
    split_ifs with hgh
    · exact hgh ▸ .assignSelf
    · exact .assignFuture hh hg hkind hgh
  case copyFuture h g =>
    obtain ⟨y, hg, ⟨_, hshared⟩, rfl⟩ := hs
    exact .copyFuture hg hshared
  case copyAssign h g =>
    obtain ⟨x, _, y, hg, ⟨_, hshared⟩, rfl⟩ := hs
    exact .copyAssign hg hshared
  case share f h g =>
    obtain ⟨y, hg, ⟨hh, _⟩, rfl⟩ := hs
    split_ifs with hnone
    · exact .shareThrows
    · exact .share hh hg
  case destroyFuture h =>
    split_ifs at hs with hnone
    exact Option.some.inj hs ▸ .destroyFuture
  case wait f h timeoutTime =>
    obtain ⟨y, hy, rfl⟩ := hs
    exact .wait (futureOf_eq hy).1 (futureOf_eq hy).2
  case get f h =>
    obtain ⟨y, hy, rfl⟩ := hs
    exact .get (futureOf_eq hy).1 (futureOf_eq hy).2
  case getExceptionPtr f h =>
    obtain ⟨y, hy, rfl⟩ := hs
    exact .getExceptionPtr (futureOf_eq hy).1 (futureOf_eq hy).2
  case run b =>
    cases b with
    | call f i a => exact absurd hs (by simp)
    | enter f | check f | resume f | expire f | tick n =>
      obtain ⟨core, hcore, rfl⟩ := Option.map_eq_some_iff.mp hs
      exact .run (fun _ _ _ => by simp) hcore

end Promise

end Dumbo.Fiber
