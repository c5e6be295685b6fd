import Dumbo.Fiber.Mutex
import Dumbo.Lib.Conditions

/-!
# Condition variables

`condition_variable` with `fibers::mutex`, for the fibers of one thread. Between its calls a fiber may
be switched away from, and so it may while it runs a predicate. The spinlock of a wait queue is never
contended: `wait` holds it from the link to the suspension, and the mutex that it releases there switches
to no other fiber.
-/

namespace Dumbo.Fiber

open Transition

/-- A call of `wait`, or of `wait_until` and `wait_for`, which has a deadline; with a predicate or
without. -/
structure WaitCall (M C : Type*) where
  lt : M
  cnd : C
  timeoutTime : Option Nat
  pred : Bool
  deriving DecidableEq, Repr

/-- The calls that suspend a fiber. -/
inductive SyncCall (M C : Type*)
  | lock (mtx : M)
  | wait (w : WaitCall M C)
  /-- `lt.lock()` behind the suspension of a wait -/
  | relock (w : WaitCall M C) (timeout : Bool)
  deriving DecidableEq, Repr

variable {F M C : Type*}

instance : Wait (SyncCall M C) (SyncQueue M C) where
  queue
    | .lock mtx => some (.mutex mtx)
    | .wait w => some (.condition w.cnd)
    | .relock w _ => some (.mutex w.lt)
  deadline
    | .wait w => w.timeoutTime
    | _ => none

theorem SyncCall.queue_lock (mtx : M) : Wait.queue (SyncCall.lock mtx : SyncCall M C) = some (.mutex mtx) :=
  rfl

theorem SyncCall.queue_wait (w : WaitCall M C) : Wait.queue (SyncCall.wait w) = some (.condition w.cnd) :=
  rfl

theorem SyncCall.queue_relock (w : WaitCall M C) (timeout : Bool) :
    Wait.queue (SyncCall.relock w timeout) = some (.mutex w.lt) := rfl

namespace ConditionVariable

inductive Phase (M C : Type*)
  /-- runs no predicate -/
  | idle
  /-- runs the predicate of a wait, whose value is returned after a timeout -/
  | pred (w : WaitCall M C) (timeout : Bool)
  deriving DecidableEq, Repr

/-- A wait that has returned, with `no_timeout` or, where it has a predicate, with `true`. -/
structure Return (F M C : Type*) where
  fiber : F
  call : WaitCall M C
  result : Bool
  deriving DecidableEq, Repr

structure State (F M C : Type*) where
  sync : Sync F M C (SyncCall M C)
  phase : F → Phase M C
  /-- `std::terminate` has been called -/
  terminated : Bool
  steps : Nat
  /-- the step in which the fiber has linked itself in a wait queue last -/
  linked : F → Nat
  /-- the notification that has unlinked it since -/
  notified : F → Option (Nat × C)
  returned : List (Return F M C)

namespace State

def initial (clock : Nat) : State F M C :=
  ⟨.initial clock, fun _ => .idle, false, 0, fun _ => 0, fun _ => none, []⟩

def mode (s : State F M C) (f : F) : Mode (SyncCall M C) := s.sync.fibers.mode f

def count (s : State F M C) : State F M C := { s with steps := s.steps + 1 }

/-- The fiber is in no call. -/
def idle (s : State F M C) (f : F) : Bool :=
  match s.mode f, s.phase f with
  | .outside, .idle => true
  | _, _ => false

variable [DecidableEq F]

def setPhase (s : State F M C) (f : F) (phase : Phase M C) : State F M C :=
  { s with phase := Function.update s.phase f phase }

def finish (s : State F M C) (f : F) (w : WaitCall M C) (result : Bool) : State F M C :=
  { s.setPhase f .idle with returned := ⟨f, w, result⟩ :: s.returned }

/-- A wait goes on behind `lt.lock()`: it returns, or its loop goes round. -/
def relocked (s : State F M C) (f : F) (w : WaitCall M C) (timeout : Bool) : State F M C :=
  if w.pred then s.setPhase f (.pred w timeout) else s.finish f w !timeout

variable [DecidableEq M] [DecidableEq C]

/-- `mutex::lock`; the owner throws. -/
def lock (s : State F M C) (f : F) (mtx : M) : State F M C :=
  if s.sync.owner mtx = some f then s
  else if s.sync.owner mtx = none then { s with sync := s.sync.take mtx f }
  else { s with sync := s.sync.park f (.lock mtx) }

/-- `mutex::try_lock`, up to its yield; the owner throws. -/
def tryLock (s : State F M C) (f : F) (mtx : M) : State F M C :=
  if s.sync.owner mtx = some f then s
  else if s.sync.owner mtx = none then { s with sync := s.sync.take mtx f }
  else s

/-- `mutex::unlock`; a fiber that is not the owner throws. -/
def unlock (s : State F M C) (f : F) (mtx : M) : State F M C :=
  if s.sync.owner mtx ≠ some f then s else { s with sync := s.sync.release mtx }

/-- `wait_link`, `lt.unlock()` and the suspension. -/
def block (s : State F M C) (f : F) (w : WaitCall M C) : State F M C :=
  { s.setPhase f .idle with
    sync := s.sync.waitOn f w.lt w.cnd (.wait w)
    linked := Function.update s.linked f s.steps
    notified := Function.update s.notified f none }

/-- `lt.lock()`, where an exception ends the program. -/
def relock (s : State F M C) (f : F) (w : WaitCall M C) (timeout : Bool) : State F M C :=
  if s.sync.owner w.lt = some f then { s with terminated := true }
  else if s.sync.owner w.lt = none then { s with sync := s.sync.take w.lt f }.relocked f w timeout
  else { s with sync := s.sync.park f (.relock w timeout) }

def notifyOne (s : State F M C) (cnd : C) : State F M C :=
  { s with
    sync := { s.sync with fibers := s.sync.fibers.wakeOne (.condition cnd) }
    notified := fun f =>
      if (s.sync.fibers.queue (.condition cnd)).head? = some f then some (s.steps, cnd)
      else s.notified f }

def notifyAll (s : State F M C) (cnd : C) : State F M C :=
  { s with
    sync := { s.sync with fibers := s.sync.fibers.wakeAll (.condition cnd) }
    notified := fun f =>
      if f ∈ s.sync.fibers.queue (.condition cnd) then some (s.steps, cnd) else s.notified f }

def pick (s : State F M C) (f : F) : State F M C :=
  { s with sync := { s.sync with fibers := s.sync.fibers.pick f } }

/-- The fiber is resumed and calls `wait_unlink`. -/
def unlink (s : State F M C) (f : F) : State F M C :=
  { s with sync := { s.sync with fibers := (s.sync.fibers.waitUnlink f).pick f } }

/-- A wait goes on behind its suspension. -/
def resumeWait (s : State F M C) (f : F) (w : WaitCall M C) : State F M C :=
  (s.unlink f).relock f w !s.sync.fibers.inTime (.wait w)

/-! ### The mutexes are those of `mutex` -/

def mutex (s : State F M C) (mtx : M) : Mutex F := ⟨s.sync.owner mtx, s.sync.fibers.queue (.mutex mtx)⟩

omit [DecidableEq C] in
theorem mutex_take (s : State F M C) {f : F} {mtx : M} (hfree : s.sync.owner mtx = none) :
    mutex { s with sync := s.sync.take mtx f } mtx = ((s.mutex mtx).lock f).1 := by
  simp [mutex, Sync.take, Mutex.lock, hfree]

theorem mutex_park (s : State F M C) {f : F} {mtx : M} {op : SyncCall M C}
    (hop : Wait.queue op = some (.mutex mtx)) (hown : s.sync.owner mtx ≠ some f)
    (hfree : s.sync.owner mtx ≠ none) :
    mutex { s with sync := s.sync.park f op } mtx = ((s.mutex mtx).lock f).1 := by
  simp [mutex, Sync.park, Fibers.park, Fibers.link, Mutex.lock, hop, Ne.symm hown, hfree]

theorem mutex_release (s : State F M C) {f : F} {mtx : M} (hown : s.sync.owner mtx = some f) :
    mutex { s with sync := s.sync.release mtx } mtx = ((s.mutex mtx).unlock f).1 := by
  simp only [mutex, Sync.release_owner, Sync.release_queue, Function.update_self, Mutex.unlock, hown,
    ne_eq, not_true_eq_false, if_false]
  cases s.sync.fibers.queue (.mutex mtx) <;> rfl

theorem mutex_lock (s : State F M C) (f : F) (mtx : M) :
    (s.lock f mtx).mutex mtx = ((s.mutex mtx).lock f).1 := by
  rw [lock]
  split_ifs with hown hfree
  · simp [mutex, Mutex.lock, hown]
  · exact s.mutex_take hfree
  · exact s.mutex_park rfl hown hfree

omit [DecidableEq C] in
theorem mutex_tryLock (s : State F M C) (f : F) (mtx : M) :
    (s.tryLock f mtx).mutex mtx = ((s.mutex mtx).tryLock f).1 := by
  rw [tryLock]
  split_ifs with hown hfree
  · simp [mutex, Mutex.tryLock, hown]
  · simp [mutex, Sync.take, Mutex.tryLock, hfree]
  · simp [mutex, Mutex.tryLock, Ne.symm hown, hfree]

theorem mutex_unlock (s : State F M C) (f : F) (mtx : M) :
    (s.unlock f mtx).mutex mtx = ((s.mutex mtx).unlock f).1 := by
  rw [unlock]
  split_ifs with hown
  · simp [mutex, Mutex.unlock, Ne.symm hown]
  · exact s.mutex_release (not_not.mp hown)

omit [DecidableEq M] [DecidableEq C] in
theorem relocked_sync (s : State F M C) (f : F) (w : WaitCall M C) (timeout : Bool) :
    (s.relocked f w timeout).sync = s.sync := by
  rw [relocked]
  split_ifs <;> rfl

theorem mutex_block (s : State F M C) {f : F} {w : WaitCall M C} (hown : s.sync.owner w.lt = some f) :
    (s.block f w).mutex w.lt = ((s.mutex w.lt).unlock f).1 := by
  let linked : State F M C :=
    { s with sync := { s.sync with fibers := s.sync.fibers.waitLink f (.condition w.cnd) } }
  have hlinked : linked.mutex w.lt = s.mutex w.lt := by
    simp [linked, mutex, Fibers.waitLink, Fibers.link]
  rw [← hlinked]
  exact linked.mutex_release hown

theorem mutex_relock (s : State F M C) {f : F} {w : WaitCall M C} (timeout : Bool)
    (hown : s.sync.owner w.lt ≠ some f) :
    (s.relock f w timeout).mutex w.lt = ((s.mutex w.lt).lock f).1 := by
  rw [relock, if_neg hown]
  split_ifs with hfree
  · rw [← s.mutex_take hfree]
    simp only [mutex, relocked_sync]
  · exact s.mutex_park rfl hown hfree

end State

inductive Action (F M C : Type*)
  | lock (f : F) (mtx : M)
  | tryLock (f : F) (mtx : M)
  | unlock (f : F) (mtx : M)
  | wait (f : F) (w : WaitCall M C)
  /-- the predicate of a wait returns -/
  | pred (f : F) (value : Bool)
  | notifyOne (cnd : C)
  | notifyAll (cnd : C)
  /-- the scheduler picks a ready fiber -/
  | resume (f : F)
  /-- the dispatcher finds the deadline of a fiber passed -/
  | expire (f : F)
  | tick (n : Nat)
  deriving DecidableEq, Repr

variable [DecidableEq F] [DecidableEq M] [DecidableEq C]

/-- The caller of a wait owns the mutex, as its first assertions say. -/
def act (s : State F M C) : Action F M C → Option (State F M C)
  | .lock f mtx => if s.idle f then some (s.lock f mtx) else none
  | .tryLock f mtx => if s.idle f then some (s.tryLock f mtx) else none
  | .unlock f mtx => if s.idle f then some (s.unlock f mtx) else none
  | .wait f w =>
    if s.idle f ∧ s.sync.owner w.lt = some f then
      some (if w.pred then s.setPhase f (.pred w false) else s.block f w)
    else none
  | .pred f value =>
    match s.phase f with
    | .pred w timeout => some (if value || timeout then s.finish f w value else s.block f w)
    | .idle => none
  | .notifyOne cnd => some (s.notifyOne cnd)
  | .notifyAll cnd => some (s.notifyAll cnd)
  | .resume f =>
    match s.mode f with
    | .expired (.wait w) | .notified (.wait w) => some (s.resumeWait f w)
    | .notified (.lock _) => some (s.pick f)
    | .notified (.relock w timeout) => some ((s.pick f).relocked f w timeout)
    | _ => none
  | .expire f =>
    match s.mode f with
    | .suspended op =>
      if s.sync.fibers.overdue op then
        some { s with sync := { s.sync with fibers := s.sync.fibers.expire f op } }
      else none
    | _ => none
  | .tick n => some { s with sync := { s.sync with fibers := s.sync.fibers.tick n } }

def step (s : State F M C) (a : Action F M C) : Option (State F M C) :=
  (act s a).map State.count

def machine (F M C : Type*) [DecidableEq F] [DecidableEq M] [DecidableEq C] (clock : Nat) :
    Machine (State F M C) (Action F M C) :=
  ⟨.initial clock, step⟩

/-- What a step finds and does. -/
inductive Acted (s : State F M C) : Action F M C → State F M C → Prop
  | lock {f mtx} : s.idle f → Acted s (.lock f mtx) (s.lock f mtx)
  | tryLock {f mtx} : s.idle f → Acted s (.tryLock f mtx) (s.tryLock f mtx)
  | unlock {f mtx} : s.idle f → Acted s (.unlock f mtx) (s.unlock f mtx)
  | check {f w} : s.idle f → s.sync.owner w.lt = some f → w.pred = true →
      Acted s (.wait f w) (s.setPhase f (.pred w false))
  | wait {f w} : s.idle f → s.sync.owner w.lt = some f → w.pred = false →
      Acted s (.wait f w) (s.block f w)
  | finish {f w value timeout} : s.phase f = .pred w timeout → (value || timeout) = true →
      Acted s (.pred f value) (s.finish f w value)
  | again {f w} : s.phase f = .pred w false → Acted s (.pred f false) (s.block f w)
  | notifyOne (cnd) : Acted s (.notifyOne cnd) (s.notifyOne cnd)
  | notifyAll (cnd) : Acted s (.notifyAll cnd) (s.notifyAll cnd)
  | resumeWait {f w} : s.mode f = .expired (.wait w) ∨ s.mode f = .notified (.wait w) →
      Acted s (.resume f) (s.resumeWait f w)
  | resumeLock {f mtx} : s.mode f = .notified (.lock mtx) → Acted s (.resume f) (s.pick f)
  | resumeRelock {f w timeout} : s.mode f = .notified (.relock w timeout) →
      Acted s (.resume f) ((s.pick f).relocked f w timeout)
  | expire {f op} : s.mode f = .suspended op → s.sync.fibers.overdue op = true →
      Acted s (.expire f) { s with sync := { s.sync with fibers := s.sync.fibers.expire f op } }
  | tick (n) : Acted s (.tick n) { s with sync := { s.sync with fibers := s.sync.fibers.tick n } }

theorem acted {s t : State F M C} {a : Action F M C} (hs : act s a = some t) : Acted s a t := by
  cases a with
  | lock f mtx | tryLock f mtx | unlock f mtx =>
    simp only [act, Option.ite_none_right_eq_some, Option.some.injEq] at hs
    obtain ⟨hidle, rfl⟩ := hs
    constructor
    exact hidle
  | wait f w =>
    simp only [act, Option.ite_none_right_eq_some, Option.some.injEq] at hs
    obtain ⟨⟨hidle, howner⟩, rfl⟩ := hs
    by_cases hw : w.pred = true
    · rw [if_pos hw]
      exact .check hidle howner hw
    · rw [if_neg hw]
      exact .wait hidle howner (by simpa using hw)
  | pred f value =>
    simp only [act] at hs
    split at hs
    · rename_i w timeout hphase
      rw [Option.some.injEq] at hs
      subst hs
      by_cases hval : (value || timeout) = true
      · rw [if_pos hval]
        exact .finish hphase hval
      · rw [if_neg hval]
        simp only [Bool.or_eq_true, not_or, Bool.not_eq_true] at hval
        obtain ⟨rfl, rfl⟩ := hval
        exact .again hphase
    · exact absurd hs (by simp)
  | notifyOne cnd =>
    simp only [act, Option.some.injEq] at hs
    exact hs ▸ .notifyOne cnd
  | notifyAll cnd =>
    simp only [act, Option.some.injEq] at hs
    exact hs ▸ .notifyAll cnd
  | resume f =>
    simp only [act] at hs
    split at hs
    · rename_i hmode
      rw [Option.some.injEq] at hs
      exact hs ▸ .resumeWait (.inl hmode)
    · rename_i hmode
      rw [Option.some.injEq] at hs
      exact hs ▸ .resumeWait (.inr hmode)
    · rename_i hmode
      rw [Option.some.injEq] at hs
      exact hs ▸ .resumeLock hmode
    · rename_i hmode
      rw [Option.some.injEq] at hs
      exact hs ▸ .resumeRelock hmode
    · exact absurd hs (by simp)
  | expire f =>
    simp only [act] at hs
    split at hs
    · rename_i hmode
      rw [Option.ite_none_right_eq_some, Option.some.injEq] at hs
      exact hs.2 ▸ .expire hmode hs.1
    · exact absurd hs (by simp)
  | tick n =>
    simp only [act, Option.some.injEq] at hs
    exact hs ▸ .tick n

end ConditionVariable

end Dumbo.Fiber
