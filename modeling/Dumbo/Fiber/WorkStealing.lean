import Dumbo.Fiber.ThreadRuns

/-!
# Work stealing at its edges

A thread that is alone has none to steal from, and a thread that has ended leaves a queue that none may steal
from.
-/

namespace Dumbo.Fiber.Threads

open Transition
open Scheduler (TimePoint timeMax Launch)

variable {T : Type} {algo : Algo} {s s' : State T} {t u : T} {c : CtxId T} {a : Action T} {suspend : Bool}

/-- The thread that takes the step. -/
def Action.thread : Action T → T
  | .create t _ | .yield t | .suspend t _ | .waitUntil t _ | .wake t _ | .setTerminated t | .destroy t
  | .dispatch t _ | .go t | .lose t | .steal t _ _ | .suspendReturn t _ => t

/-! ### Where the other threads are in their code -/

section Others

variable [DecidableEq T]

@[simp]
theorem setThread_pc_ne (s : State T) (x : Thread T) (hu : u ≠ t) :
    ((s.setThread t x).thread u).pc = (s.thread u).pc := by
  rw [setThread_of_ne s x hu]

@[simp]
theorem setPc_pc_ne (s : State T) (pc : ThreadPc T) (hu : u ≠ t) :
    ((s.setPc t pc).thread u).pc = (s.thread u).pc := setThread_pc_ne s _ hu

@[simp]
theorem setActive_pc_ne (s : State T) (c : CtxId T) (hu : u ≠ t) :
    ((s.setActive t c).thread u).pc = (s.thread u).pc := setThread_pc_ne s _ hu

@[simp]
theorem getScheduler_thread (s : State T) (t : T) (c : CtxId T) : (s.getScheduler t c).thread = s.thread := by
  rw [State.getScheduler]
  split <;> rfl

variable [Fintype T]

@[simp]
theorem attach_pc_ne (s : State T) (c : CtxId T) (hu : u ≠ t) :
    ((s.attach t c).thread u).pc = (s.thread u).pc := by
  simp [State.attach, State.workerLink, State.setScheduler, hu, require_thread, ownScheduler_thread]

@[simp]
theorem detach_pc (s : State T) (t u : T) (c : CtxId T) :
    ((s.detach t c).thread u).pc = (s.thread u).pc := by
  simp only [State.detach, State.setScheduler, State.workerUnlink, require_thread]
  split
  · simp only [State.fail, require_thread]
  · rw [require_thread]

@[simp]
theorem awakened_pc_ne (s : State T) (c : CtxId T) (next : Next) (hu : u ≠ t) :
    ((s.awakened t c next).thread u).pc = (s.thread u).pc := by
  rw [State.awakened]
  split <;> simp [hu, require_thread]

@[simp]
theorem setReady_pc_ne (s : State T) (c : CtxId T) (hu : u ≠ t) :
    ((s.setReady t c).thread u).pc = (s.thread u).pc := by
  simp [State.setReady, hu, State.readyUnlink, State.sleepUnlink, require_thread]

@[simp]
theorem contextSetReady_pc_ne (s : State T) (c : CtxId T) (hu : u ≠ t) :
    ((s.contextSetReady t c).thread u).pc = (s.thread u).pc := by
  simp only [State.contextSetReady]
  split
  · simp [hu, ownScheduler_thread, require_thread]
  · simp [State.fail, require_thread]

@[simp]
theorem resume_pc_ne (s : State T) (c : CtxId T) (r : Option (CtxId T)) (hu : u ≠ t) :
    ((s.resume t c r).thread u).pc = (s.thread u).pc := by
  cases r <;> simp [State.resume, hu, ownScheduler_thread]

omit [Fintype T] in
@[simp]
theorem pickNull_pc_ne (s : State T) (hu : u ≠ t) : ((s.pickNull t).thread u).pc = (s.thread u).pc := by
  rw [State.pickNull]
  split
  · simp [hu]
  · rfl

@[simp]
theorem pickLocal_pc_ne (s : State T) (r : Option (CtxId T)) (hu : u ≠ t) :
    ((s.pickLocal algo t r).thread u).pc = (s.thread u).pc := by
  rw [State.pickLocal]
  split
  · simp [hu]
  · split <;> simp [hu]

omit [Fintype T] in
@[simp]
theorem pop_pc_ne (s : State T) (q : Option T) (c : CtxId T) (rest : List (CtxId T)) (r : Option (CtxId T))
    (hu : u ≠ t) : ((s.pop t q c rest r).thread u).pc = (s.thread u).pc := by
  simp [State.pop, hu, State.setQueue]

omit [Fintype T] in
theorem steal_pc_ne (s : State T) (v : T) (lost : Bool) (r : Option (CtxId T)) (hu : u ≠ t) :
    ((s.steal t v lost r).thread u).pc = (s.thread u).pc := by
  rw [State.steal]
  split
  · rfl
  · split
    · simp [hu]
    · split <;> simp [hu]

theorem sleep2ready_pc_ne (s : State T) (now : TimePoint) (hu : u ≠ t) :
    ((s.sleep2ready t now).thread u).pc = (s.thread u).pc := by
  rw [State.sleep2ready]
  split
  · simp [hu]
  · simp only
    split <;> simp [hu, require_thread]

theorem go_pc_ne (s : State T) (hu : u ≠ t) (hs : s.go algo t = some s') :
    (s'.thread u).pc = (s.thread u).pc := by
  rw [State.go] at hs
  split at hs
  · cases hs
  · cases hs
  · cases hs
  · cases hs
  · cases hs
    rw [State.pickNext]
    split <;> simp [hu]
  · cases hs
    simp [hu]
  · cases hs
    simp [hu, State.setQueue]
  · cases hs
    exact sleep2ready_pc_ne s _ hu

@[simp]
theorem releaseTerminated_pc_ne (s : State T) (l : List (CtxId T)) (hu : u ≠ t) :
    ((s.releaseTerminated t l).thread u).pc = (s.thread u).pc := by
  induction l generalizing s with
  | nil => rfl
  | cons c rest ih => simp [State.releaseTerminated, ih, hu, State.workerUnlink, require_thread]

theorem leave_pc_ne (s : State T) (hu : u ≠ t) : ((s.leave t).thread u).pc = (s.thread u).pc := by
  simp only [State.leave]
  rw [setPc_pc_ne _ _ hu, require_thread, require_thread]
  show (((s.releaseTerminated t _).setActive t (.main t)).thread u).pc = _
  rw [setActive_pc_ne _ _ hu, releaseTerminated_pc_ne s _ hu]

omit [Fintype T] in
@[simp]
theorem notify_pc_ne (s : State T) (hu : u ≠ t) : ((s.notify suspend t).thread u).pc = (s.thread u).pc := by
  rw [State.notify]
  split <;> simp [hu]

theorem dispatch_pc_ne (s : State T) (now : TimePoint) (hu : u ≠ t) :
    ((s.dispatch suspend t now).thread u).pc = (s.thread u).pc := by
  simp only [State.dispatch]
  split
  · split
    · rw [leave_pc_ne _ hu, notify_pc_ne _ hu]
    · simp [hu]
  · simp [hu]

/-- A step leaves the other threads where they are in their code. -/
theorem step_pc_ne (hs : step algo suspend s a = some s') (hu : u ≠ a.thread) :
    (s'.thread u).pc = (s.thread u).pc := by
  obtain ⟨⟨-, henabled⟩, rfl⟩ := Option.ite_none_right_eq_some.mp hs |>.imp_right Option.some.inj
  cases a
  all_goals simp only [Action.thread] at hu
  case create t policy => cases policy <;> simp [perform, State.create, hu, ownScheduler_thread]
  case yield t => simp [perform, State.yield, hu, ownScheduler_thread, require_thread]
  case suspend t q => simp [perform, State.suspend, hu, State.waitLink, require_thread]
  case waitUntil t sleepTp =>
    simp [perform, State.waitUntil, hu, State.sleepLink, ownScheduler_thread, require_thread]
  case wake t c => simp [perform, State.wake, hu, State.waitUnlink]
  case setTerminated t =>
    simp [perform, State.setTerminated, hu, State.terminatedLink, ownScheduler_thread, require_thread]
  case destroy t => simp [perform, State.destroy, State.suspend, hu, State.waitLink, require_thread]
  case dispatch t now => exact dispatch_pc_ne s now hu
  case go t =>
    obtain ⟨s', hgo⟩ := Option.isSome_iff_exists.mp henabled
    simp only [perform, hgo, Option.getD_some]
    exact go_pc_ne s hu hgo
  case lose t =>
    simp only [perform]
    cases (s.thread t).pc.picks <;> simp [hu]
  case steal t v lost =>
    simp only [perform]
    cases (s.thread t).pc.steals with
    | none => rfl
    | some r => exact steal_pc_ne s v lost r hu
  case suspendReturn t now => simp [perform, State.suspendReturn, hu]

theorem thread_ne_of_destroyed (hs : step algo suspend s a = some s') (ht : (s.thread t).pc = .destroyed) :
    t ≠ a.thread := by
  obtain ⟨⟨-, henabled⟩, -⟩ := Option.ite_none_right_eq_some.mp hs |>.imp_right Option.some.inj
  rintro rfl
  cases a with
  | create t policy | yield t | suspend t q | waitUntil t sleepTp =>
    have hpc := (of_decide_eq_true henabled).1
    cases ht.symm.trans hpc
  | wake t c | setTerminated t | destroy t =>
    have hpc := (of_decide_eq_true henabled).1.1
    cases ht.symm.trans hpc
  | dispatch t now =>
    have hpc := (of_decide_eq_true henabled).1
    cases ht.symm.trans hpc
  | go t =>
    have hpc : (s.thread t).pc = .destroyed := ht
    simp [enabled, State.go, hpc] at henabled
  | lose t =>
    have hpc : (s.thread t).pc = .destroyed := ht
    simp [enabled, ThreadPc.picks, hpc] at henabled
  | steal t v lost =>
    have hpc : (s.thread t).pc = .destroyed := ht
    simp [enabled, ThreadPc.steals, hpc] at henabled
  | suspendReturn t now =>
    have hpc : (s.thread t).pc = .destroyed := ht
    simp [enabled, State.mayReturn, hpc] at henabled

end Others

/-! ### The queue of a thread that has ended -/

variable [DecidableEq T] [Fintype T]

/-- Nothing is taken out of the queue of a thread that has ended. -/
theorem Changes.destroyed (h : Changes .workStealing suspend (some t) s a s')
    (ht : (s.thread t).pc = .destroyed) : ∃ ext, s'.rqueue (some t) = s.rqueue (some t) ++ ext := by
  rcases h with ⟨-, ext, hext, -⟩ | ⟨htakes, -⟩
  · exact ⟨ext, hext⟩
  · exfalso
    cases a with
    | go u =>
      obtain ⟨hpicks, hu, -⟩ := of_decide_eq_true htakes
      obtain rfl : u = t := Option.some.inj hu
      simp [ht, ThreadPc.picks] at hpicks
    | steal u v lost =>
      obtain ⟨-, hthere, hv, -⟩ := of_decide_eq_true htakes
      obtain rfl : v = t := Option.some.inj hv
      exact hthere ht
    | _ => cases htakes

theorem queued_exec {as : List (Action T)} (hc : c ∈ s.rqueue (some t)) (ht : (s.thread t).pc = .destroyed)
    (hrun : (machine T .workStealing suspend).exec s as = some s') : c ∈ s'.rqueue (some t) := by
  induction as generalizing s with
  | nil =>
    cases hrun
    exact hc
  | cons a as ih =>
    obtain ⟨u, hu, hrun⟩ := Machine.exec_cons.mp hrun
    have hstep : step .workStealing suspend s a = some u := hu
    obtain ⟨ext, hext⟩ := (step_rqueue (some t) hstep).destroyed ht
    apply ih _ _ hrun
    · rw [hext]
      exact List.mem_append_left _ hc
    · exact (step_pc_ne hstep (thread_ne_of_destroyed hstep ht)).trans ht

/-- A worker in the queue of a thread that has ended stays there for good: whatever the other threads do, it is
never resumed. -/
theorem work_stealing_strands (h : (machine T .workStealing suspend).Reachable s)
    (ht : (s.thread t).pc = .destroyed) {n : Nat} (hn : .worker n ∈ s.rqueue (some t)) {as : List (Action T)}
    (hrun : (machine T .workStealing suspend).exec s as = some s') (hfault : s'.fault = none)
    {w : Whereabouts T} (hw : s'.At (.worker n) w) : w = .queued (some t) := by
  have hqueued := queued_exec hn ht hrun
  rcases Inv.of_reachable (h.exec hrun) with hfails | ⟨place, hinv⟩
  · exact absurd hfault hfails.fault_ne
  · rw [hinv.at_unique hw, hinv.placed.of_queued hqueued]
    rfl

/-- One of two threads ends while a fiber that has yielded is in its queue, and the other creates fibers. -/
theorem work_stealing_strands_yielding : ∃ s s' : State Bool, (s.thread true).pc = .destroyed ∧
    s.terminated (.worker 0) = false ∧
    (machine Bool .workStealing true).exec s [.create false .dispatch, .yield false, .go false] = some s' ∧
    ∀ w, s'.At (.worker 0) w → w = .queued (some true) := by
  obtain ⟨s, hs, hpc, hq, hlive⟩ : ∃ s, (machine Bool .workStealing true).exec start
      [.create true .post, .go true, .destroy true, .go true, .go true, .yield true, .go true, .go true,
        .dispatch true 0] = some s ∧ (s.thread true).pc = .destroyed ∧
      s.rqueue (some true) = [.worker 0] ∧ s.terminated (.worker 0) = false := ⟨_, rfl, rfl, rfl, rfl⟩
  obtain ⟨s', hs', hfault⟩ : ∃ s', (machine Bool .workStealing true).exec s
      [.create false .dispatch, .yield false, .go false] = some s' ∧ s'.fault = none := by
    cases hs
    exact ⟨_, rfl, rfl⟩
  have hn : CtxId.worker 0 ∈ s.rqueue (some true) := by
    rw [hq]
    decide
  exact ⟨s, s', hpc, hlive, hs', fun w hw =>
    work_stealing_strands (Machine.reachable_of_exec hs) hpc hn hs' hfault hw⟩

/-! ### A thread that is alone -/

omit [DecidableEq T] [Fintype T] in
theorem thread_pc_stealing [Subsingleton T] {r : Option (CtxId T)} (hpc : (s.thread t).pc = .stealing r)
    (v : T) : (s.thread v).pc = .stealing r := by
  rwa [Subsingleton.elim v t]

theorem not_enabled_of_stealing [Subsingleton T] {r : Option (CtxId T)} (hpc : (s.thread t).pc = .stealing r)
    (a : Action T) : enabled algo suspend s a = false := by
  have hpc := thread_pc_stealing hpc
  cases a with
  | steal v w lost => simp [enabled, Subsingleton.elim w v]
  | _ => simp [enabled, State.InUser, State.go, State.mayReturn, ThreadPc.picks, hpc]

/-- A thread that is alone is never suspended: when nothing is ready it looks for another thread to steal from,
and takes no further step, whenever its sleeping contexts are to wake. -/
theorem work_stealing_alone [Subsingleton T] (h : (machine T .workStealing suspend).Reachable s)
    (hfault : s.fault = none) :
    (∀ timePoint, (s.thread t).pc ≠ .suspended timePoint) ∧
      ∀ r, (s.thread t).pc = .picking r → s.rqueue (some t) = [] → (s.thread t).lqueue = [] →
        ∃ s', step .workStealing suspend s (.go t) = some s' ∧ ∀ a, step .workStealing suspend s' a = none := by
  have halone : ¬ ∃ v, v ≠ t := by
    rintro ⟨v, hv⟩
    exact hv (Subsingleton.elim v t)
  rcases Inv.of_reachable h with hfails | ⟨place, hinv⟩
  · exact absurd hfault hfails.fault_ne
  · refine ⟨fun timePoint hpc => halone ((hinv.pc hpc).2 rfl), fun r hpc hq hl => ?_⟩
    have hgo : s.go .workStealing t = some (s.setPc t (.stealing r)) := by
      have hq : s.rqueue (Algo.workStealing.rqueue t) = [] := hq
      simp [State.go, hpc, State.pickNext, hq, State.pickLocal, hl]
    refine ⟨s.setPc t (.stealing r), ?_, fun a => if_neg fun hen => ?_⟩
    · simp [step, hfault, enabled, perform, hgo]
    · have hpc : ((s.setPc t (.stealing r)).thread t).pc = .stealing r := by rw [setPc_thread]
      exact Bool.false_ne_true ((not_enabled_of_stealing hpc a).symm.trans hen.2)

/-- The main context sleeps until 5, and is not woken. -/
theorem work_stealing_alone_asleep : ∃ s s' : State Unit, (s.thread ()).sleepQueue = [.main ()] ∧
    s.tp (.main ()) = 5 ∧ step .workStealing true s (.go ()) = some s' ∧
    ∀ a, step .workStealing true s' a = none := by
  obtain ⟨s, hs, hsleep, htp, hpc, hq, hl, hfault⟩ : ∃ s, (machine Unit .workStealing true).exec start
      [.waitUntil () 5, .go (), .dispatch () 0, .go ()] = some s ∧ (s.thread ()).sleepQueue = [.main ()] ∧
      s.tp (.main ()) = 5 ∧ (s.thread ()).pc = .picking (some (.dispatcher ())) ∧ s.rqueue (some ()) = [] ∧
      (s.thread ()).lqueue = [] ∧ s.fault = none := ⟨_, rfl, rfl, rfl, rfl, rfl, rfl, rfl⟩
  obtain ⟨-, hpick⟩ := work_stealing_alone (Machine.reachable_of_exec hs) hfault (t := ())
  obtain ⟨s', hs', hstuck⟩ := hpick _ hpc hq hl
  exact ⟨s, s', hsleep, htp, hs', hstuck⟩

end Dumbo.Fiber.Threads
