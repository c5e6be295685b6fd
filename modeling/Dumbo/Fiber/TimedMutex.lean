import Dumbo.Fiber.Mutex
import Dumbo.Lib.TimedMonitor

/-!
# Mutexes with deadlines

`timed_mutex` and `recursive_timed_mutex`. Their `lock`, `try_lock` and `unlock` are those of `mutex` and
`recursive_mutex`, and so are their members. `try_lock_until_` returns what `wait_until` has found, the
clock before or behind the deadline, whether or not the mutex has been handed to the fiber meanwhile.
-/

namespace Dumbo.Fiber

open Transition

variable {Context : Type*} [DecidableEq Context]

/-! ### `timed_mutex` -/

abbrev TimedMutex (Context : Type*) := Mutex Context

namespace TimedMutex

def create : TimedMutex Context := Mutex.create

/-- `try_lock_until_` behind its first look at the clock, up to `wait_until`. -/
def tryLockUntil (m : TimedMutex Context) (ctx : Context) : TimedMutex Context × Entry :=
  if m.owner = none then ({ m with owner := some ctx }, .acquired)
  else ({ m with waitQueue := m.waitQueue ++ [ctx] }, .blocked)

def waitUnlink (m : TimedMutex Context) (ctx : Context) : TimedMutex Context :=
  { m with waitQueue := m.waitQueue.erase ctx }

def ops : TimedLockOps Context (TimedMutex Context) where
  toLockOps := Mutex.ops
  tryUntil := tryLockUntil
  waitUnlink := waitUnlink
  inTime _ _ := true
  ownsOnce m ctx := decide (m.owner = some ctx)

theorem monitor_tryLockUntil (m : TimedMutex Context) (ctx : Context) :
    (Mutex.monitor m).tryUntil false ctx =
      ((tryLockUntil m ctx).1.monitor, (tryLockUntil m ctx).2) := by
  rw [tryLockUntil]
  cases howner : m.owner with
  | none =>
    rw [Monitor.tryUntil_free howner]
    simp [Mutex.monitor]
  | some g =>
    rw [Monitor.tryUntil_other howner (by simp), if_neg (by simp)]
    simp [Mutex.monitor, howner]

theorem agree : TimedLocking.Agree ops (Monitor.timedOps false)
    (Mutex.monitor : TimedMutex Context → _) := by
  refine ⟨Mutex.agree, monitor_tryLockUntil, fun _ _ => rfl, fun _ _ => rfl, fun m ctx => ?_⟩
  by_cases howner : m.owner = some ctx
  · simp [Monitor.timedOps, Mutex.monitor, ops, howner]
  · simp [Monitor.timedOps, Mutex.monitor, ops, howner]

end TimedMutex

/-! ### `recursive_timed_mutex` -/

abbrev RecursiveTimedMutex (Context : Type*) := RecursiveMutex Context

namespace RecursiveTimedMutex

def create : RecursiveTimedMutex Context := RecursiveMutex.create

/-- `try_lock_until_` behind its first look at the clock, up to `wait_until`. -/
def tryLockUntil (m : RecursiveTimedMutex Context) (ctx : Context) :
    RecursiveTimedMutex Context × Entry :=
  if some ctx = m.owner then ({ m with count := m.count + 1 }, .acquired)
  else if m.owner = none then ({ m with owner := some ctx, count := 1 }, .acquired)
  else ({ m with waitQueue := m.waitQueue ++ [ctx] }, .blocked)

def waitUnlink (m : RecursiveTimedMutex Context) (ctx : Context) : RecursiveTimedMutex Context :=
  { m with waitQueue := m.waitQueue.erase ctx }

def ops : TimedLockOps Context (RecursiveTimedMutex Context) where
  toLockOps := RecursiveMutex.ops
  tryUntil := tryLockUntil
  waitUnlink := waitUnlink
  inTime m ctx := decide (m.owner = some ctx)
  ownsOnce m ctx := decide (m.owner = some ctx ∧ m.count = 1)

theorem monitor_tryLockUntil (m : RecursiveTimedMutex Context) (ctx : Context) :
    (RecursiveMutex.monitor m).tryUntil true ctx =
      ((tryLockUntil m ctx).1.monitor, (tryLockUntil m ctx).2) := by
  rw [tryLockUntil]
  cases howner : m.owner with
  | none =>
    rw [Monitor.tryUntil_free howner]
    simp [RecursiveMutex.monitor]
  | some g =>
    by_cases hg : ctx = g
    · rw [Monitor.tryUntil_own (hg ▸ howner) rfl, if_pos (by rw [hg])]
      simp [RecursiveMutex.monitor, howner]
    · rw [Monitor.tryUntil_other howner fun h => hg h.1, if_neg (by simpa using hg), if_neg (by simp)]
      simp [RecursiveMutex.monitor, howner]

theorem agree : TimedLocking.Agree ops (Monitor.timedOps true)
    (RecursiveMutex.monitor : RecursiveTimedMutex Context → _) :=
  ⟨RecursiveMutex.agree, monitor_tryLockUntil, fun _ _ => rfl, fun _ _ => rfl, fun _ _ => rfl⟩

end RecursiveTimedMutex

/-! ### What `try_lock_until` reports -/

open TimedLocking

/-- In any run of either mutex, all that `try_lock_until` has returned is true throughout, if and only if
each fiber that the mutex has been handed to inside it is resumed before its deadline. -/
theorem timed_locking_truthful_iff {main : Context} {s : State Context (TimedMutex Context)}
    {u : State Context (RecursiveTimedMutex Context)} {as bs : List (Action Context)}
    (hs : (machine TimedMutex.ops .create main).exec (initial .create main) as = some s)
    (hu : (machine RecursiveTimedMutex.ops .create main).exec (initial .create main) bs = some u) :
    ((machine TimedMutex.ops .create main).Throughout (Truthful TimedMutex.ops)
        (initial .create main) as ↔
      (machine TimedMutex.ops .create main).StepsMeet InTime (initial .create main) as) ∧
    ((machine RecursiveTimedMutex.ops .create main).Throughout (Truthful RecursiveTimedMutex.ops)
        (initial .create main) bs ↔
      (machine RecursiveTimedMutex.ops .create main).StepsMeet InTime (initial .create main) bs) :=
  ⟨TimedMutex.agree.truthful_iff rfl hs, RecursiveTimedMutex.agree.truthful_iff rfl hu⟩

/-- Fiber 0 owns the mutex, fiber 1 waits for it until 10, and is handed it at once. -/
def handedRun : List (Action Nat) :=
  [.lock, .switch 1, .tryUntil 0 10, .switch 0, .unlock]

/-- Resumed at 9 it owns the mutex and says so. -/
theorem timed_locking_truthful_iff_inTime :
    ((machine TimedMutex.ops .create 0).Throughout (Truthful TimedMutex.ops)
        (initial .create 0) (handedRun ++ [.resume 1 9]) ↔
      (machine TimedMutex.ops .create 0).StepsMeet InTime (initial .create 0)
        (handedRun ++ [.resume 1 9])) ∧
    ((machine RecursiveTimedMutex.ops .create 0).Throughout (Truthful RecursiveTimedMutex.ops)
        (initial .create 0) (handedRun ++ [.resume 1 9]) ↔
      (machine RecursiveTimedMutex.ops .create 0).StepsMeet InTime (initial .create 0)
        (handedRun ++ [.resume 1 9])) := by
  obtain ⟨s, hs⟩ : ∃ s, (machine TimedMutex.ops .create 0).exec (initial .create 0)
      (handedRun ++ [.resume 1 9]) = some s := ⟨_, rfl⟩
  obtain ⟨u, hu⟩ : ∃ u, (machine RecursiveTimedMutex.ops .create 0).exec (initial .create 0)
      (handedRun ++ [.resume 1 9]) = some u := ⟨_, rfl⟩
  exact timed_locking_truthful_iff hs hu

/-- Resumed at 10 it reports a failure, of a mutex that it owns and no other fiber may unlock. -/
theorem timed_locking_truthful_late :
    (∃ s, (machine TimedMutex.ops .create 0).Reachable s ∧ s.lock.owner = some 1 ∧
      s.reports = [⟨1, false, false, true⟩] ∧ s.phase 1 = .outside ∧ ¬ Truthful TimedMutex.ops s) ∧
    ∃ u, (machine RecursiveTimedMutex.ops .create 0).Reachable u ∧ u.lock.owner = some 1 ∧
      u.reports = [⟨1, false, false, true⟩] ∧ u.phase 1 = .outside ∧
      ¬ Truthful RecursiveTimedMutex.ops u := by
  obtain ⟨s, hs, ho, hr, hp⟩ : ∃ s, (machine TimedMutex.ops .create 0).exec (initial .create 0)
      (handedRun ++ [.resume 1 10]) = some s ∧ s.lock.owner = some 1 ∧
      s.reports = [⟨1, false, false, true⟩] ∧ s.phase 1 = .outside := ⟨_, rfl, rfl, rfl, rfl⟩
  obtain ⟨u, hu, ho', hr', hp'⟩ : ∃ u, (machine RecursiveTimedMutex.ops .create 0).exec
      (initial .create 0) (handedRun ++ [.resume 1 10]) = some u ∧ u.lock.owner = some 1 ∧
      u.reports = [⟨1, false, false, true⟩] ∧ u.phase 1 = .outside := ⟨_, rfl, rfl, rfl, rfl⟩
  refine ⟨⟨s, Machine.reachable_of_exec hs, ho, hr, hp, fun h => ?_⟩,
    ⟨u, Machine.reachable_of_exec hu, ho', hr', hp', fun h => ?_⟩⟩
  · have hreport := h.reports ⟨1, false, false, true⟩ (by simp [hr]) rfl
    cases hreport
  · have hreport := h.reports ⟨1, false, false, true⟩ (by simp [hr']) rfl
    cases hreport

end Dumbo.Fiber
