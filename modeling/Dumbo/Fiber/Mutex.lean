import Dumbo.Lib.Monitor

/-!
# Mutexes of fibers

`mutex` and `recursive_mutex` for the fibers of one thread, where the spinlock of a mutex is never
contended. A fiber may be any value with decidable equality.
-/

namespace Dumbo.Fiber

open Transition

variable {Context : Type*} [DecidableEq Context]

/-! ### `mutex` -/

structure Mutex (Context : Type*) where
  owner : Option Context
  waitQueue : List Context
  deriving DecidableEq, Repr

namespace Mutex

def create : Mutex Context := ⟨none, []⟩

def lock (m : Mutex Context) (ctx : Context) : Mutex Context × Entry :=
  if some ctx = m.owner then (m, .threw)
  else if m.owner = none then ({ m with owner := some ctx }, .acquired)
  else ({ m with waitQueue := m.waitQueue ++ [ctx] }, .blocked)

/-- `try_lock`, up to its yield; behind it the result is `ctx == owner_`. -/
def tryLock (m : Mutex Context) (ctx : Context) : Mutex Context × Entry :=
  if some ctx = m.owner then (m, .threw)
  else if m.owner = none then ({ m with owner := some ctx }, .acquired)
  else (m, .failed)

def unlock (m : Mutex Context) (ctx : Context) : Mutex Context × Exit Context :=
  if some ctx ≠ m.owner then (m, .threw)
  else
    match m.waitQueue with
    | front :: rest => ({ m with owner := some front, waitQueue := rest }, .released (some front))
    | [] => ({ m with owner := none }, .released none)

def ops : LockOps Context (Mutex Context) := ⟨owner, lock, tryLock, unlock⟩

/-- A lock without re-entrance. -/
def monitor (m : Mutex Context) : Monitor Context :=
  ⟨m.owner, if m.owner = none then 0 else 1, m.waitQueue⟩

end Mutex

/-! ### `recursive_mutex` -/

/-- `count_` counts calls and stays far below the end of its range. -/
structure RecursiveMutex (Context : Type*) where
  owner : Option Context
  count : Nat
  waitQueue : List Context
  deriving DecidableEq, Repr

namespace RecursiveMutex

def create : RecursiveMutex Context := ⟨none, 0, []⟩

def lock (m : RecursiveMutex Context) (ctx : Context) : RecursiveMutex Context × Entry :=
  if some ctx = m.owner then ({ m with count := m.count + 1 }, .acquired)
  else if m.owner = none then ({ m with owner := some ctx, count := 1 }, .acquired)
  else ({ m with waitQueue := m.waitQueue ++ [ctx] }, .blocked)

/-- `try_lock`, up to its yield; behind it the result is `ctx == owner_`. -/
def tryLock (m : RecursiveMutex Context) (ctx : Context) : RecursiveMutex Context × Entry :=
  if m.owner = none then ({ m with owner := some ctx, count := 1 }, .acquired)
  else if some ctx = m.owner then ({ m with count := m.count + 1 }, .acquired)
  else (m, .failed)

def unlock (m : RecursiveMutex Context) (ctx : Context) : RecursiveMutex Context × Exit Context :=
  if some ctx ≠ m.owner then (m, .threw)
  else
    let m := { m with count := m.count - 1 }
    if m.count = 0 then
      match m.waitQueue with
      | front :: rest =>
        ({ m with owner := some front, count := 1, waitQueue := rest }, .released (some front))
      | [] => ({ m with owner := none }, .released none)
    else (m, .released none)

def ops : LockOps Context (RecursiveMutex Context) := ⟨owner, lock, tryLock, unlock⟩

def monitor (m : RecursiveMutex Context) : Monitor Context := ⟨m.owner, m.count, m.waitQueue⟩

end RecursiveMutex

/-! ### Both are monitors -/

namespace Mutex

variable (m : Mutex Context) (ctx : Context)

theorem monitor_lock :
    m.monitor.lock false ctx = ((m.lock ctx).1.monitor, (m.lock ctx).2) := by
  rw [lock]
  cases howner : m.owner with
  | none =>
    rw [Monitor.lock_free howner]
    simp [monitor]
  | some g =>
    by_cases hg : ctx = g
    · rw [Monitor.lock_own (hg ▸ howner), if_pos (by rw [hg])]
      rfl
    · rw [Monitor.lock_other howner hg, if_neg (by simpa using hg), if_neg (by simp)]
      simp [monitor, howner]

theorem monitor_tryLock :
    m.monitor.tryLock false ctx = ((m.tryLock ctx).1.monitor, (m.tryLock ctx).2) := by
  rw [tryLock]
  cases howner : m.owner with
  | none =>
    rw [Monitor.tryLock_free howner]
    simp [monitor]
  | some g =>
    by_cases hg : ctx = g
    · rw [Monitor.tryLock_own (hg ▸ howner), if_pos (by rw [hg])]
      rfl
    · rw [Monitor.tryLock_other howner hg, if_neg (by simpa using hg), if_neg (by simp)]

theorem monitor_unlock :
    m.monitor.unlock ctx = ((m.unlock ctx).1.monitor, (m.unlock ctx).2) := by
  obtain ⟨owner, waitQueue⟩ := m
  by_cases howner : some ctx = owner
  · subst howner
    cases waitQueue <;> simp [Monitor.unlock, unlock, monitor, Monitor.free]
  · simp [Monitor.unlock, unlock, monitor, howner, Ne.symm howner]

omit m ctx in
theorem agree : Locking.Agree ops (Monitor.ops false) (monitor : Mutex Context → _) :=
  ⟨fun _ => rfl, monitor_lock, monitor_tryLock, monitor_unlock⟩

end Mutex

namespace RecursiveMutex

variable (m : RecursiveMutex Context) (ctx : Context)

theorem monitor_lock :
    m.monitor.lock true ctx = ((m.lock ctx).1.monitor, (m.lock ctx).2) := by
  rw [lock]
  cases howner : m.owner with
  | none =>
    rw [Monitor.lock_free howner]
    simp [monitor]
  | some g =>
    by_cases hg : ctx = g
    · rw [Monitor.lock_own (hg ▸ howner), if_pos (by rw [hg])]
      simp [monitor, Monitor.reenter, howner]
    · rw [Monitor.lock_other howner hg, if_neg (by simpa using hg), if_neg (by simp)]
      simp [monitor, howner]

theorem monitor_tryLock :
    m.monitor.tryLock true ctx = ((m.tryLock ctx).1.monitor, (m.tryLock ctx).2) := by
  rw [tryLock]
  cases howner : m.owner with
  | none =>
    rw [Monitor.tryLock_free howner]
    simp [monitor]
  | some g =>
    rw [if_neg (by simp)]
    by_cases hg : ctx = g
    · rw [Monitor.tryLock_own (hg ▸ howner), if_pos (by rw [hg])]
      simp [monitor, Monitor.reenter, howner]
    · rw [Monitor.tryLock_other howner hg, if_neg (by simpa using hg)]

theorem monitor_unlock :
    m.monitor.unlock ctx = ((m.unlock ctx).1.monitor, (m.unlock ctx).2) := by
  obtain ⟨owner, count, waitQueue⟩ := m
  by_cases howner : some ctx = owner
  · subst howner
    by_cases hcount : 1 < count
    · have hne : count - 1 ≠ 0 := by omega
      simp [Monitor.unlock, unlock, monitor, hcount, hne]
    · have hzero : count - 1 = 0 := by omega
      cases waitQueue <;> simp [Monitor.unlock, unlock, monitor, Monitor.free, hcount, hzero]
  · simp [Monitor.unlock, unlock, monitor, howner, Ne.symm howner]

omit m ctx in
theorem agree : Locking.Agree ops (Monitor.ops true) (monitor : RecursiveMutex Context → _) :=
  ⟨fun _ => rfl, monitor_lock, monitor_tryLock, monitor_unlock⟩

end RecursiveMutex

/-! ### Mutual exclusion -/

/-- The calls that throw: those of the owner again on a `mutex`, `unlock` by another context on either.
They leave the mutex as it was. -/
def Mutex.Throws (m : Mutex Context) : Prop :=
  ∀ ctx, ((m.lock ctx).2 = .threw ↔ m.owner = some ctx) ∧
    ((m.tryLock ctx).2 = .threw ↔ m.owner = some ctx) ∧
    ((m.unlock ctx).2 = .threw ↔ m.owner ≠ some ctx) ∧
    ((m.lock ctx).2 = .threw → (m.lock ctx).1 = m) ∧
    ((m.tryLock ctx).2 = .threw → (m.tryLock ctx).1 = m) ∧
    ((m.unlock ctx).2 = .threw → (m.unlock ctx).1 = m)

def RecursiveMutex.Throws (m : RecursiveMutex Context) : Prop :=
  ∀ ctx, (m.lock ctx).2 ≠ .threw ∧ (m.tryLock ctx).2 ≠ .threw ∧
    ((m.unlock ctx).2 = .threw ↔ m.owner ≠ some ctx) ∧
    ((m.unlock ctx).2 = .threw → (m.unlock ctx).1 = m)

theorem Mutex.throws (m : Mutex Context) : m.Throws := by
  intro ctx
  by_cases howner : some ctx = m.owner
  · have hlock : m.lock ctx = (m, .threw) := if_pos howner
    have htry : m.tryLock ctx = (m, .threw) := if_pos howner
    have hunlock : (m.unlock ctx).2 ≠ .threw := by
      rw [unlock, if_neg (not_not.mpr howner)]
      split <;> simp
    rw [hlock, htry]
    exact ⟨⟨fun _ => howner.symm, fun _ => rfl⟩, ⟨fun _ => howner.symm, fun _ => rfl⟩,
      ⟨fun h => absurd h hunlock, fun h => absurd howner.symm h⟩, fun _ => rfl, fun _ => rfl,
      fun h => absurd h hunlock⟩
  · have hlock : (m.lock ctx).2 ≠ .threw := by
      rw [lock, if_neg howner]
      split <;> simp
    have htry : (m.tryLock ctx).2 ≠ .threw := by
      rw [tryLock, if_neg howner]
      split <;> simp
    have hunlock : m.unlock ctx = (m, .threw) := if_pos howner
    rw [hunlock]
    exact ⟨⟨fun h => absurd h hlock, fun h => absurd h.symm howner⟩,
      ⟨fun h => absurd h htry, fun h => absurd h.symm howner⟩,
      ⟨fun _ => Ne.symm howner, fun _ => rfl⟩, fun h => absurd h hlock, fun h => absurd h htry,
      fun _ => rfl⟩

theorem RecursiveMutex.throws (m : RecursiveMutex Context) : m.Throws := by
  intro ctx
  have hlock : (m.lock ctx).2 ≠ .threw := by
    rw [lock]
    split_ifs <;> simp
  have htry : (m.tryLock ctx).2 ≠ .threw := by
    rw [tryLock]
    split_ifs <;> simp
  by_cases howner : some ctx = m.owner
  · have hunlock : (m.unlock ctx).2 ≠ .threw := by
      rw [unlock, if_neg (not_not.mpr howner)]
      simp only
      split
      · split <;> simp
      · simp
    exact ⟨hlock, htry, ⟨fun h => absurd h hunlock, fun h => absurd howner.symm h⟩,
      fun h => absurd h hunlock⟩
  · have hunlock : m.unlock ctx = (m, .threw) := if_pos howner
    rw [hunlock]
    exact ⟨hlock, htry, ⟨fun _ => Ne.symm howner, fun _ => rfl⟩, fun _ => rfl⟩

open Locking in
/-- Both mutexes exclude and hand themselves over in order, on one thread under any schedule. The owner
of a `mutex` has acquired it once, and `count_` counts the acquisitions of a `recursive_mutex`. -/
theorem mutexes_exclusive {main : Context} {s : State Context (Mutex Context)}
    {u : State Context (RecursiveMutex Context)}
    (hs : (machine Mutex.ops .create main).Reachable s)
    (hu : (machine RecursiveMutex.ops .create main).Reachable u) :
    (Exclusive Mutex.ops Mutex.waitQueue s ∧ s.lock.Throws ∧
        ∀ ctx, s.lock.owner = some ctx → s.held ctx + (s.phase ctx).pending = 1) ∧
      Exclusive RecursiveMutex.ops RecursiveMutex.waitQueue u ∧ u.lock.Throws ∧
        (∀ ctx, u.lock.owner = some ctx → u.lock.count = u.held ctx + (u.phase ctx).pending) ∧
        (u.lock.owner = none ↔ u.lock.count = 0) := by
  obtain ⟨hinv, hexclusive⟩ := Mutex.agree.exclusive rfl hs
  obtain ⟨hinv', hexclusive'⟩ := RecursiveMutex.agree.exclusive rfl hu
  refine ⟨⟨hexclusive, s.lock.throws, fun ctx howner => ?_⟩, hexclusive', u.lock.throws,
    fun ctx howner => ((hinv'.fibers ctx).owner howner).1, hinv'.free⟩
  have hcount : (s.map Mutex.monitor).lock.count = 1 := if_neg (by rw [howner]; simp)
  rw [← hcount]
  exact (((hinv.fibers ctx).owner howner).1).symm

/-- A fiber that has blocked has been handed the mutex and is still in `lock`; the `recursive_mutex` had
been acquired twice. -/
theorem mutexes_exclusive_handed :
    ∃ (s : Locking.State Nat (Mutex Nat)) (u : Locking.State Nat (RecursiveMutex Nat)),
      s.lock = ⟨some 2, []⟩ ∧ u.lock = ⟨some 2, 1, []⟩ ∧ s.phase 2 = .woken ∧
      (Locking.Exclusive Mutex.ops Mutex.waitQueue s ∧ s.lock.Throws ∧
        ∀ ctx, s.lock.owner = some ctx → s.held ctx + (s.phase ctx).pending = 1) ∧
      Locking.Exclusive RecursiveMutex.ops RecursiveMutex.waitQueue u ∧ u.lock.Throws ∧
        (∀ ctx, u.lock.owner = some ctx → u.lock.count = u.held ctx + (u.phase ctx).pending) ∧
        (u.lock.owner = none ↔ u.lock.count = 0) := by
  obtain ⟨s, hs, hlock, hphase⟩ : ∃ s, (Locking.machine Mutex.ops .create 0).exec
      (Locking.initial Mutex.create 0) [.lock, .switch 2, .tryLock, .switch 0, .switch 2, .lock,
        .switch 0, .unlock] = some s ∧ s.lock = ⟨some 2, []⟩ ∧ s.phase 2 = .woken := ⟨_, rfl, rfl, rfl⟩
  obtain ⟨u, hu, hlock'⟩ : ∃ u, (Locking.machine RecursiveMutex.ops .create 0).exec
      (Locking.initial RecursiveMutex.create 0) [.lock, .tryLock, .switch 2, .lock, .switch 0, .unlock,
        .unlock] = some u ∧ u.lock = ⟨some 2, 1, []⟩ := ⟨_, rfl, rfl⟩
  exact ⟨s, u, hlock, hlock', hphase,
    mutexes_exclusive (Machine.reachable_of_exec hs) (Machine.reachable_of_exec hu)⟩

end Dumbo.Fiber
