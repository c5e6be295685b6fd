import Dumbo.Fiber.ConditionProtocol

/-!
# Objects with a mutex and a condition variable

`barrier` and `shared_state` work alike. A call locks the mutex of its object, reads and writes the
object, and returns, or it waits on the condition variable of the object until a predicate holds. The
fiber may be switched away from while it owns the mutex.
-/

namespace Dumbo.Fiber

open Transition

namespace Monitored

inductive Outcome (A L R : Type*)
  /-- unlock the mutex, notify all waiters or none, and return or throw -/
  | returns (result : R) (notify : Bool)
  /-- unlock the mutex and make another call -/
  | calls (a : A)
  | waits (l : L)

structure Methods (D A L R : Type*) where
  enter : A → D → D × Outcome A L R
  /-- the predicate of a wait -/
  pred : L → D → Bool
  timeoutTime : L → Option Nat
  /-- behind a wait, with the last value of its predicate -/
  leave : L → Bool → D → D × R

variable {F I D A L R : Type*}

/-- The wait of a call. -/
def Methods.waitCall (m : Methods D A L R) (i : I) (l : L) : WaitCall I I := ⟨i, i, m.timeoutTime l, true⟩

/-- The call that a fiber is in. -/
inductive Task (I A L : Type*)
  | idle
  /-- up to its work on the object -/
  | enters (i : I) (a : A)
  | waits (i : I) (l : L)

def Task.object : Task I A L → Option I
  | .idle => none
  | .enters i _ | .waits i _ => some i

structure Return (F I R : Type*) where
  fiber : F
  object : I
  result : R
  deriving DecidableEq, Repr

structure State (F I D A L R : Type*) where
  cv : ConditionVariable.State F I I
  data : I → D
  task : F → Task I A L
  returned : List (Return F I R)

namespace State

def initial (data : I → D) (clock : Nat) : State F I D A L R :=
  ⟨.initial clock, data, fun _ => .idle, []⟩

variable [DecidableEq F] [DecidableEq I]

def setTask (s : State F I D A L R) (f : F) (task : Task I A L) : State F I D A L R :=
  { s with task := Function.update s.task f task }

def setData (s : State F I D A L R) (i : I) (d : D) : State F I D A L R :=
  { s with data := Function.update s.data i d }

/-- A call begins with the lock. -/
def call (s : State F I D A L R) (f : F) (i : I) (a : A) : State F I D A L R :=
  { s.setTask f (.enters i a) with cv := (s.cv.lock f i).count }

/-- The fiber unlocks the mutex and returns or throws. -/
def exit (s : State F I D A L R) (f : F) (i : I) (r : R) : State F I D A L R :=
  { s.setTask f .idle with cv := (s.cv.unlock f i).count, returned := ⟨f, i, r⟩ :: s.returned }

def notifyAll (s : State F I D A L R) (i : I) : State F I D A L R :=
  { s with cv := (s.cv.notifyAll i).count }

variable (m : Methods D A L R)

/-- The work of a call, by the owner of the mutex. -/
def enter (s : State F I D A L R) (f : F) (i : I) (a : A) : State F I D A L R :=
  let t := s.setData i (m.enter a (s.data i)).1
  match (m.enter a (s.data i)).2 with
  | .returns r notify => if notify then (t.exit f i r).notifyAll i else t.exit f i r
  | .calls b => { t with cv := (t.cv.unlock f i).count }.call f i b
  | .waits l =>
    { t.setTask f (.waits i l) with cv := (t.cv.setPhase f (.pred (m.waitCall i l) false)).count }

/-- The predicate of a wait is evaluated; behind the wait the call returns. -/
def check (s : State F I D A L R) (f : F) (i : I) (l : L) (timeout : Bool) : State F I D A L R :=
  let value := m.pred l (s.data i)
  if value || timeout then
    { s.setData i (m.leave l value (s.data i)).1 with
      cv := (s.cv.finish f (m.waitCall i l) value).count }.exit f i (m.leave l value (s.data i)).2
  else { s with cv := (s.cv.block f (m.waitCall i l)).count }

end State

inductive Action (F I A : Type*)
  | call (f : F) (i : I) (a : A)
  | enter (f : F)
  | check (f : F)
  | resume (f : F)
  | expire (f : F)
  | tick (n : Nat)
  deriving DecidableEq, Repr

variable [DecidableEq F] [DecidableEq I] (m : Methods D A L R)

def step (s : State F I D A L R) : Action F I A → Option (State F I D A L R)
  | .call f i a =>
    match s.task f with
    | .idle => some (s.call f i a)
    | _ => none
  | .enter f =>
    match s.task f with
    | .enters i a => if s.cv.idle f then some (s.enter m f i a) else none
    | _ => none
  | .check f =>
    match s.task f, s.cv.phase f with
    | .waits i l, .pred _ timeout => some (s.check m f i l timeout)
    | _, _ => none
  | .resume f => (ConditionVariable.step s.cv (.resume f)).map fun cv => { s with cv := cv }
  | .expire f => (ConditionVariable.step s.cv (.expire f)).map fun cv => { s with cv := cv }
  | .tick n => (ConditionVariable.step s.cv (.tick n)).map fun cv => { s with cv := cv }

def machine (F : Type*) {I : Type*} [DecidableEq F] [DecidableEq I] (m : Methods D A L R) (data : I → D)
    (clock : Nat) : Machine (State F I D A L R) (Action F I A) :=
  ⟨.initial data clock, step m⟩

/-- What a step finds and does. -/
inductive Acted (s : State F I D A L R) : Action F I A → State F I D A L R → Prop
  | call {f i a} : s.task f = .idle → Acted s (.call f i a) (s.call f i a)
  | enter {f i a} : s.task f = .enters i a → s.cv.idle f → Acted s (.enter f) (s.enter m f i a)
  | check {f i l w timeout} : s.task f = .waits i l → s.cv.phase f = .pred w timeout →
      Acted s (.check f) (s.check m f i l timeout)
  | resume {f cv} : ConditionVariable.step s.cv (.resume f) = some cv →
      Acted s (.resume f) { s with cv := cv }
  | expire {f cv} : ConditionVariable.step s.cv (.expire f) = some cv →
      Acted s (.expire f) { s with cv := cv }
  | tick {n cv} : ConditionVariable.step s.cv (.tick n) = some cv → Acted s (.tick n) { s with cv := cv }

variable {m} {s t : State F I D A L R} {f : F} {i : I} {a : A} {l : L}

theorem acted {b : Action F I A} (hs : step m s b = some t) : Acted m s b t := by
  cases b with
  | call f i a =>
    simp only [step] at hs
    split at hs
    · rename_i htask
      rw [Option.some.injEq] at hs
      exact hs ▸ .call htask
    · exact absurd hs (by simp)
  | enter f =>
    simp only [step] at hs
    split at hs
    · rename_i htask
      rw [Option.ite_none_right_eq_some, Option.some.injEq] at hs
      exact hs.2 ▸ .enter htask hs.1
    · exact absurd hs (by simp)
  | check f =>
    simp only [step] at hs
    split at hs
    · rename_i htask hphase
      rw [Option.some.injEq] at hs
      exact hs ▸ .check htask hphase
    · exact absurd hs (by simp)
  | resume f =>
    simp only [step, Option.map_eq_some_iff] at hs
    obtain ⟨cv, hcv, rfl⟩ := hs
    exact .resume hcv
  | expire f =>
    simp only [step, Option.map_eq_some_iff] at hs
    obtain ⟨cv, hcv, rfl⟩ := hs
    exact .expire hcv
  | tick n =>
    simp only [step, Option.map_eq_some_iff] at hs
    obtain ⟨cv, hcv, rfl⟩ := hs
    exact .tick hcv

end Monitored

end Dumbo.Fiber
