import Dumbo.Reactor.Worker

/-!
# The hand-off of tasks to a worker

Between two critical sections of the reactor's thread the worker is in one of four phases: it has
nothing to do, it has a task it has not processed, it has processed a task and not sent it, or it is
being stopped. This holds of the runs in which `run` and `stop` take the mutex only after the worker's
thread has taken it for the first time.
-/

namespace Dumbo.Reactor.Worker

open Transition

/-- What `submit_to` is called with for a task. -/
def answer (task : Task) : Nat × Task :=
  (task.cpu, task)

def WorkerPc.holds : WorkerPc → Bool
  | .clear | .check | .work | .submit | .exit => true
  | _ => false

def ReactorPc.holds : ReactorPc → Bool
  | .runSet _ | .runUnlock _ | .stopSet | .stopUnlock => true
  | _ => false

/-- The reactor's thread has not asked for anything the worker has not done. -/
def ReactorPc.calm : ReactorPc → Bool
  | .runUnlock _ | .stopUnlock | .stopNotify | .join | .stopped => false
  | _ => true

inductive Phase (s : State) : Prop
  | quiet (hstop : s.stop = false) (hgiven : s.given = s.processed)
      (hsent : s.submitted = s.processed.map answer) (hcalm : s.reactor.calm = true)
      (hworker : s.worker = .start ∧ s.reactor.holds = false ∧ s.ready = false ∨
        s.worker = .clear ∨
        (s.worker = .check ∨ s.worker = .blocked ∨ s.worker = .woken) ∧ s.ready = false)
  | pending (task : Task) (hstop : s.stop = false) (hready : s.ready = true)
      (htask : s.task = some task) (hgiven : s.given = s.processed ++ [task])
      (hsent : s.submitted = s.processed.map answer)
      (hreactor : s.reactor = .runUnlock task ∨ s.reactor = .runNotify task ∨
        s.reactor = .awaiting task ∧ s.worker ≠ .blocked)
      (hworker : s.worker = .blocked ∨ s.worker = .woken ∨ s.worker = .check ∨ s.worker = .work)
  | processed (task : Task) (sent : List Task) (hstop : s.stop = false)
      (htask : s.task = some task) (hgiven : s.given = s.processed)
      (hproc : s.processed = sent ++ [task]) (hsent : s.submitted = sent.map answer)
      (hreactor : s.reactor = .runNotify task ∨ s.reactor = .awaiting task)
      (hworker : s.worker = .submit)
  | stopping (hstop : s.stop = true) (hready : s.ready = true) (hgiven : s.given = s.processed)
      (hsent : s.submitted = s.processed.map answer)
      (hreactor : s.reactor = .stopUnlock ∨ s.reactor = .stopNotify ∨
        s.reactor = .join ∧ s.worker ≠ .blocked ∨ s.reactor = .stopped ∧ s.worker = .done)
      (hworker : s.worker = .blocked ∨ s.worker = .woken ∨ s.worker = .check ∨ s.worker = .work ∨
        s.worker = .exit ∨ s.worker = .done)

structure Inv (s : State) : Prop where
  fault : s.fault = false
  worker_mutex : s.worker.holds = true ↔ s.mutex = some .worker
  reactor_mutex : s.reactor.holds = true ↔ s.mutex = some .reactor
  phase : Phase s

/-- About to take the mutex in `run` or `stop`. -/
def ReactorPc.locking : ReactorPc → Bool
  | .runLock _ | .stopLock => true
  | _ => false

/-- The condition on a step: `run` and `stop` take the mutex after the worker's thread. -/
def StepOk (s : State) (a : Action) : Prop :=
  a = .reactor → s.reactor.locking = true → s.worker ≠ .start

instance (s : State) (a : Action) : Decidable (StepOk s a) :=
  inferInstanceAs (Decidable (_ → _ → _))

variable {s t : State}

theorem Inv.mutex_none (h : Inv s) (hw : s.worker.holds = false) (hr : s.reactor.holds = false) :
    s.mutex = none := by
  rcases hm : s.mutex with _ | _ | _
  · rfl
  · rw [h.worker_mutex.mpr hm] at hw
    exact absurd hw (by decide)
  · rw [h.reactor_mutex.mpr hm] at hr
    exact absurd hr (by decide)

theorem Inv.reactor_free (h : Inv s) (hw : s.worker.holds = true) :
    s.reactor.holds = false := by
  rw [← Bool.not_eq_true]
  intro hr
  have hm := h.worker_mutex.mp hw
  rw [h.reactor_mutex.mp hr] at hm
  exact absurd hm (by decide)

theorem Inv.worker_keeps (h : Inv s) (hw : s.worker.holds = true) (hf : t.fault = false)
    (hm : t.mutex = s.mutex) (ht : t.worker.holds = true) (hr : t.reactor = s.reactor)
    (hp : Phase t) : Inv t := by
  refine ⟨hf, ?_, ?_, hp⟩
  · rw [hm, ← h.worker_mutex, hw, ht]
  · rw [hm, hr]
    exact h.reactor_mutex

theorem Inv.worker_takes (h : Inv s) (hm : s.mutex = none) (hf : t.fault = false)
    (hmt : t.mutex = some .worker) (ht : t.worker.holds = true) (hr : t.reactor = s.reactor)
    (hp : Phase t) : Inv t := by
  refine ⟨hf, ?_, ?_, hp⟩
  · rw [hmt, ht]
    simp only
  · rw [hmt, hr, h.reactor_mutex, hm]
    simp

theorem Inv.worker_releases (h : Inv s) (hw : s.worker.holds = true) (hf : t.fault = false)
    (hmt : t.mutex = none) (ht : t.worker.holds = false) (hr : t.reactor = s.reactor)
    (hp : Phase t) : Inv t := by
  refine ⟨hf, ?_, ?_, hp⟩
  · rw [hmt, ht]
    simp
  · rw [hmt, hr, h.reactor_free hw]
    simp

theorem Inv.worker_step (h : Inv s) (hs : workerStep s = some t) : Inv t := by
  rcases h.phase with ⟨hstop, hgiven, hsent, hcalm, hworker⟩ |
    ⟨task, hstop, hready, htask, hgiven, hsent, hreactor, hworker⟩ |
    ⟨task, sent, hstop, htask, hgiven, hproc, hsent, hreactor, hworker⟩ |
    ⟨hstop, hready, hgiven, hsent, hreactor, hworker⟩
  · rcases hworker with ⟨hw, hrf, hready⟩ | hw | ⟨hw | hw | hw, hready⟩
    · simp only [workerStep, hw, Option.ite_none_right_eq_some, Option.some.injEq] at hs
      obtain ⟨hm, rfl⟩ := hs
      exact h.worker_takes hm h.fault rfl rfl rfl
        (.quiet hstop hgiven hsent hcalm (.inr (.inl rfl)))
    · simp only [workerStep, hw, Option.some.injEq] at hs
      subst hs
      exact h.worker_keeps (by rw [hw]; rfl) h.fault rfl rfl rfl
        (.quiet hstop hgiven hsent hcalm (.inr (.inr ⟨.inl rfl, rfl⟩)))
    · simp only [workerStep, hw, hready, Bool.false_eq_true, if_false, Option.some.injEq] at hs
      subst hs
      exact h.worker_releases (by rw [hw]; rfl) h.fault rfl rfl rfl
        (.quiet hstop hgiven hsent hcalm (.inr (.inr ⟨.inr (.inl rfl), rfl⟩)))
    · simp only [workerStep, hw, reduceCtorEq] at hs
    · simp only [workerStep, hw, Option.ite_none_right_eq_some, Option.some.injEq] at hs
      obtain ⟨hm, rfl⟩ := hs
      exact h.worker_takes hm h.fault rfl rfl rfl
        (.quiet hstop hgiven hsent hcalm (.inr (.inr ⟨.inl rfl, hready⟩)))
  · have hreactor' : s.reactor = .runUnlock task ∨ s.reactor = .runNotify task ∨
        s.reactor = .awaiting task := by
      rcases hreactor with hr | hr | ⟨hr, _⟩
      · exact .inl hr
      · exact .inr (.inl hr)
      · exact .inr (.inr hr)
    have hawake : ∀ {pc : WorkerPc}, pc ≠ .blocked → s.reactor = .runUnlock task ∨
        s.reactor = .runNotify task ∨ s.reactor = .awaiting task ∧ pc ≠ .blocked := by
      intro pc hpc
      rcases hreactor' with hr | hr | hr
      · exact .inl hr
      · exact .inr (.inl hr)
      · exact .inr (.inr ⟨hr, hpc⟩)
    rcases hworker with hw | hw | hw | hw
    · simp only [workerStep, hw, reduceCtorEq] at hs
    · simp only [workerStep, hw, Option.ite_none_right_eq_some, Option.some.injEq] at hs
      obtain ⟨hm, rfl⟩ := hs
      exact h.worker_takes hm h.fault rfl rfl rfl
        (.pending task hstop hready htask hgiven hsent (hawake (by simp)) (.inr (.inr (.inl rfl))))
    · simp only [workerStep, hw, hready, if_true, Option.some.injEq] at hs
      subst hs
      exact h.worker_keeps (by rw [hw]; rfl) h.fault rfl rfl rfl
        (.pending task hstop rfl htask hgiven hsent (hawake (by simp)) (.inr (.inr (.inr rfl))))
    · simp only [workerStep, hw, hstop, htask, Bool.false_eq_true, if_false,
        Option.some.injEq] at hs
      subst hs
      have hfree := h.reactor_free (by rw [hw]; rfl)
      refine h.worker_keeps (by rw [hw]; rfl) h.fault rfl rfl rfl
        (.processed task s.processed rfl rfl hgiven rfl hsent ?_ rfl)
      rcases hreactor' with hr | hr
      · rw [hr] at hfree
        exact absurd hfree (by simp [ReactorPc.holds])
      · exact hr
  · simp only [workerStep, hworker, htask, Option.some.injEq] at hs
    subst hs
    refine h.worker_keeps (by rw [hworker]; rfl) h.fault rfl rfl rfl
      (.quiet hstop hgiven ?_ ?_ (.inr (.inl rfl)))
    · simp only [hproc, hsent, List.map_append, List.map_cons, List.map_nil, answer]
    · rcases hreactor with hr | hr
      · rw [hr]
        rfl
      · rw [hr]
        rfl
  · have hawake : ∀ {pc : WorkerPc}, pc ≠ .blocked → s.worker ≠ .done →
        s.reactor = .stopUnlock ∨ s.reactor = .stopNotify ∨
        s.reactor = .join ∧ pc ≠ .blocked ∨ s.reactor = .stopped ∧ pc = .done := by
      intro pc hpc hnd
      rcases hreactor with hr | hr | ⟨hr, _⟩ | ⟨_, hd⟩
      · exact .inl hr
      · exact .inr (.inl hr)
      · exact .inr (.inr (.inl ⟨hr, hpc⟩))
      · exact absurd hd hnd
    rcases hworker with hw | hw | hw | hw | hw | hw
    · simp only [workerStep, hw, reduceCtorEq] at hs
    · simp only [workerStep, hw, Option.ite_none_right_eq_some, Option.some.injEq] at hs
      obtain ⟨hm, rfl⟩ := hs
      exact h.worker_takes hm h.fault rfl rfl rfl (.stopping hstop hready hgiven hsent
        (hawake (by simp) (by simp [hw])) (.inr (.inr (.inl rfl))))
    · simp only [workerStep, hw, hready, if_true, Option.some.injEq] at hs
      subst hs
      exact h.worker_keeps (by rw [hw]; rfl) h.fault rfl rfl rfl (.stopping hstop rfl hgiven hsent
        (hawake (by simp) (by simp [hw])) (.inr (.inr (.inr (.inl rfl)))))
    · simp only [workerStep, hw, hstop, if_true, Option.some.injEq] at hs
      subst hs
      exact h.worker_keeps (by rw [hw]; rfl) h.fault rfl rfl rfl (.stopping rfl hready hgiven hsent
        (hawake (by simp) (by simp [hw])) (.inr (.inr (.inr (.inr (.inl rfl))))))
    · simp only [workerStep, hw, Option.some.injEq] at hs
      subst hs
      exact h.worker_releases (by rw [hw]; rfl) h.fault rfl rfl rfl (.stopping hstop hready hgiven
        hsent (hawake (by simp) (by simp [hw])) (.inr (.inr (.inr (.inr (.inr rfl))))))
    · simp only [workerStep, hw, reduceCtorEq] at hs

theorem Inv.wake (h : Inv s) (hw : s.worker = .blocked) : Inv { s with worker := .woken } := by
  refine ⟨h.fault, ?_, h.reactor_mutex, ?_⟩
  · rw [← h.worker_mutex, hw]
    rfl
  · rcases h.phase with ⟨hstop, hgiven, hsent, hcalm, hworker⟩ |
      ⟨task, hstop, hready, htask, hgiven, hsent, hreactor, hworker⟩ |
      ⟨task, sent, hstop, htask, hgiven, hproc, hsent, hreactor, hworker⟩ |
      ⟨hstop, hready, hgiven, hsent, hreactor, hworker⟩
    · refine .quiet hstop hgiven hsent hcalm (.inr (.inr ⟨.inr (.inr rfl), ?_⟩))
      rcases hworker with ⟨hw', _⟩ | hw' | ⟨_, hready⟩
      · rw [hw] at hw'
        exact absurd hw' (by decide)
      · rw [hw] at hw'
        exact absurd hw' (by decide)
      · exact hready
    · refine .pending task hstop hready htask hgiven hsent ?_ (.inr (.inl rfl))
      rcases hreactor with hr | hr | ⟨hr, _⟩
      · exact .inl hr
      · exact .inr (.inl hr)
      · exact .inr (.inr ⟨hr, by simp⟩)
    · rw [hw] at hworker
      exact absurd hworker (by decide)
    · refine .stopping hstop hready hgiven hsent ?_ (.inr (.inl rfl))
      rcases hreactor with hr | hr | ⟨hr, _⟩ | ⟨_, hd⟩
      · exact .inl hr
      · exact .inr (.inl hr)
      · exact .inr (.inr (.inl ⟨hr, by simp⟩))
      · rw [hw] at hd
        exact absurd hd (by decide)

theorem Inv.notifyOne (h : Inv s) : Inv s.notifyOne ∧ s.notifyOne.worker ≠ .blocked ∧
    s.notifyOne.reactor = s.reactor := by
  unfold State.notifyOne
  by_cases hw : s.worker = .blocked
  · rw [if_pos hw]
    exact ⟨h.wake hw, by simp, rfl⟩
  · rw [if_neg hw]
    exact ⟨h, hw, rfl⟩

theorem Inv.reactor_calm (h : Inv s) {pc : ReactorPc} (hr : s.reactor.calm = true)
    (hh : s.reactor.holds = false) (hpc : pc.calm = true) (hph : pc.holds = false)
    (hsub : ∀ task, s.reactor = .runNotify task → pc = .awaiting task ∧ s.worker ≠ .blocked)
    (hwait : ∀ task, s.reactor = .awaiting task → s.submitted.length = s.given.length) :
    Inv { s with reactor := pc } := by
  refine ⟨h.fault, h.worker_mutex, ?_, ?_⟩
  · rw [← h.reactor_mutex, hh, hph]
  · rcases h.phase with ⟨hstop, hgiven, hsent, hcalm, hworker⟩ |
      ⟨task, hstop, hready, htask, hgiven, hsent, hreactor, hworker⟩ |
      ⟨task, sent, hstop, htask, hgiven, hproc, hsent, hreactor, hworker⟩ |
      ⟨hstop, hready, hgiven, hsent, hreactor, hworker⟩
    · refine .quiet hstop hgiven hsent hpc ?_
      rcases hworker with ⟨hw, _, hready⟩ | hw
      · exact .inl ⟨hw, hph, hready⟩
      · exact .inr hw
    · refine .pending task hstop hready htask hgiven hsent ?_ hworker
      rcases hreactor with he | he | ⟨he, _⟩
      · rw [he] at hr
        exact absurd hr (by simp [ReactorPc.calm])
      · exact .inr (.inr (hsub task he))
      · have hlen := hwait task he
        rw [hgiven, hsent, List.length_map, List.length_append, List.length_singleton] at hlen
        omega
    · refine .processed task sent hstop htask hgiven hproc hsent ?_ hworker
      rcases hreactor with he | he
      · exact .inr (hsub task he).1
      · have hlen := hwait task he
        rw [hgiven, hproc, hsent, List.length_map, List.length_append,
          List.length_singleton] at hlen
        omega
    · rcases hreactor with he | he | ⟨he, _⟩ | ⟨he, _⟩ <;> rw [he] at hr <;>
        exact absurd hr (by decide)

/-- With a calm caller that is not waiting for an answer the worker has nothing to do. -/
theorem Inv.quiet_of_calm (h : Inv s) (hr : s.reactor.calm = true)
    (hn : ∀ task, s.reactor ≠ .runNotify task ∧ s.reactor ≠ .awaiting task) :
    s.stop = false ∧ s.given = s.processed ∧ s.submitted = s.processed.map answer ∧
      (s.worker = .start ∧ s.reactor.holds = false ∧ s.ready = false ∨ s.worker = .clear ∨
        (s.worker = .check ∨ s.worker = .blocked ∨ s.worker = .woken) ∧ s.ready = false) := by
  rcases h.phase with ⟨hstop, hgiven, hsent, hcalm, hworker⟩ |
    ⟨task, hstop, hready, htask, hgiven, hsent, hreactor, hworker⟩ |
    ⟨task, sent, hstop, htask, hgiven, hproc, hsent, hreactor, hworker⟩ |
    ⟨hstop, hready, hgiven, hsent, hreactor, hworker⟩
  · exact ⟨hstop, hgiven, hsent, hworker⟩
  · rcases hreactor with he | he | ⟨he, _⟩
    · rw [he] at hr
      exact absurd hr (by simp [ReactorPc.calm])
    · exact absurd he (hn task).1
    · exact absurd he (hn task).2
  · rcases hreactor with he | he
    · exact absurd he (hn task).1
    · exact absurd he (hn task).2
  · rcases hreactor with he | he | ⟨he, _⟩ | ⟨he, _⟩ <;> rw [he] at hr <;>
      exact absurd hr (by decide)

theorem Inv.reactor_lock (h : Inv s) {pc : ReactorPc} (hm : s.mutex = none)
    (hr : s.reactor.calm = true)
    (hn : ∀ task, s.reactor ≠ .runNotify task ∧ s.reactor ≠ .awaiting task)
    (hstart : s.worker ≠ .start) (hpc : pc.calm = true) (hph : pc.holds = true) :
    Inv { s with mutex := some .reactor, reactor := pc } := by
  obtain ⟨hstop, hgiven, hsent, hworker⟩ := h.quiet_of_calm hr hn
  refine ⟨h.fault, ?_, ?_, .quiet hstop hgiven hsent hpc ?_⟩
  · rw [h.worker_mutex, hm]
    simp
  · rw [hph]
    simp
  · rcases hworker with ⟨hw, _⟩ | hw
    · exact absurd hw hstart
    · exact .inr hw

theorem Inv.worker_waits (h : Inv s) (hr : s.reactor.calm = true) (hh : s.reactor.holds = true)
    (hn : ∀ task, s.reactor ≠ .runNotify task ∧ s.reactor ≠ .awaiting task) :
    s.worker = .blocked ∨ s.worker = .woken := by
  obtain ⟨_, _, _, hworker⟩ := h.quiet_of_calm hr hn
  have hfree : s.worker.holds = false := by
    rw [← Bool.not_eq_true]
    intro hw
    rw [h.reactor_free hw] at hh
    exact Bool.false_ne_true hh
  rcases hworker with ⟨_, hrf, _⟩ | hw | ⟨hw | hw | hw, _⟩
  · rw [hrf] at hh
    exact absurd hh Bool.false_ne_true
  · rw [hw] at hfree
    exact absurd hfree (by decide)
  · rw [hw] at hfree
    exact absurd hfree (by decide)
  · exact .inl hw
  · exact .inr hw

theorem Inv.reactor_releases (h : Inv s) {pc : ReactorPc} (hh : s.reactor.holds = true)
    (hph : pc.holds = false) (hp : Phase { s with mutex := none, reactor := pc }) :
    Inv { s with mutex := none, reactor := pc } := by
  refine ⟨h.fault, ?_, ?_, hp⟩
  · rw [h.worker_mutex, h.reactor_mutex.mp hh]
    simp
  · rw [hph]
    simp

theorem Inv.reactor_run {task : Task} (h : Inv s) (hr : s.reactor = .runSet task) :
    Inv { s with task := some task, ready := true, given := s.given ++ [task],
                 reactor := .runUnlock task } := by
  have hcalm : s.reactor.calm = true := by rw [hr]; rfl
  have hn : ∀ task, s.reactor ≠ .runNotify task ∧ s.reactor ≠ .awaiting task := by
    intro _
    rw [hr]
    simp
  obtain ⟨hstop, hgiven, hsent, _⟩ := h.quiet_of_calm hcalm hn
  have hw := h.worker_waits hcalm (by rw [hr]; rfl) hn
  refine ⟨h.fault, h.worker_mutex, ?_, .pending task hstop rfl rfl (by rw [hgiven]) hsent
    (.inl rfl) ?_⟩
  · rw [← h.reactor_mutex, hr]
    simp [ReactorPc.holds]
  · rcases hw with hw | hw
    · exact .inl hw
    · exact .inr (.inl hw)

theorem Inv.reactor_stop (h : Inv s) (hr : s.reactor = .stopSet) :
    Inv { s with stop := true, ready := true, task := none, reactor := .stopUnlock } := by
  have hcalm : s.reactor.calm = true := by rw [hr]; rfl
  have hn : ∀ task, s.reactor ≠ .runNotify task ∧ s.reactor ≠ .awaiting task := by
    intro _
    rw [hr]
    simp
  obtain ⟨hstop, hgiven, hsent, _⟩ := h.quiet_of_calm hcalm hn
  have hw := h.worker_waits hcalm (by rw [hr]; rfl) hn
  refine ⟨h.fault, h.worker_mutex, ?_, .stopping rfl rfl hgiven hsent (.inl rfl) ?_⟩
  · rw [← h.reactor_mutex, hr]
    simp [ReactorPc.holds]
  · rcases hw with hw | hw
    · exact .inl hw
    · exact .inr (.inl hw)

theorem Inv.stopping_of (h : Inv s) (hr : s.reactor = .stopUnlock ∨ s.reactor = .stopNotify ∨
      s.reactor = .join) :
    s.stop = true ∧ s.ready = true ∧ s.given = s.processed ∧
      s.submitted = s.processed.map answer ∧
      (s.worker = .blocked ∨ s.worker = .woken ∨ s.worker = .check ∨ s.worker = .work ∨
        s.worker = .exit ∨ s.worker = .done) := by
  rcases h.phase with ⟨hstop, hgiven, hsent, hcalm, hworker⟩ |
    ⟨task, hstop, hready, htask, hgiven, hsent, hreactor, hworker⟩ |
    ⟨task, sent, hstop, htask, hgiven, hproc, hsent, hreactor, hworker⟩ |
    ⟨hstop, hready, hgiven, hsent, hreactor, hworker⟩
  · rcases hr with hr | hr | hr <;> rw [hr] at hcalm <;> exact absurd hcalm (by decide)
  · rcases hreactor with he | he | ⟨he, _⟩ <;> rw [he] at hr <;> simp at hr
  · rcases hreactor with he | he <;> rw [he] at hr <;> simp at hr
  · exact ⟨hstop, hready, hgiven, hsent, hworker⟩

theorem Inv.reactor_step (h : Inv s) (hok : StepOk s .reactor) (hs : reactorStep s = some t) :
    Inv t := by
  rcases hr : s.reactor with _ | task | task | task | task | task | _ | _ | _ | _ | _ | _ <;>
    simp only [reactorStep, hr, Option.ite_none_right_eq_some, Option.some.injEq,
      reduceCtorEq] at hs
  · obtain ⟨hm, rfl⟩ := hs
    exact h.reactor_lock hm (by rw [hr]; rfl) (by simp [hr]) (hok rfl (by rw [hr]; rfl)) rfl rfl
  · subst hs
    exact h.reactor_run hr
  · subst hs
    refine h.reactor_releases (by rw [hr]; rfl) rfl ?_
    rcases h.phase with ⟨hstop, hgiven, hsent, hcalm, hworker⟩ |
      ⟨task', hstop, hready, htask, hgiven, hsent, hreactor, hworker⟩ |
      ⟨task', sent, hstop, htask, hgiven, hproc, hsent, hreactor, hworker⟩ |
      ⟨hstop, hready, hgiven, hsent, hreactor, hworker⟩
    · rw [hr] at hcalm
      exact absurd hcalm (by simp [ReactorPc.calm])
    · rw [hr] at hreactor
      simp only [ReactorPc.runUnlock.injEq, reduceCtorEq, false_and, or_false] at hreactor
      exact .pending task hstop hready (hreactor ▸ htask) (hreactor ▸ hgiven) hsent
        (.inr (.inl rfl)) hworker
    · simp [hr] at hreactor
    · simp [hr] at hreactor
  · subst hs
    obtain ⟨hn, hw, hre⟩ := h.notifyOne
    rw [hr] at hre
    exact hn.reactor_calm (by rw [hre]; rfl) (by rw [hre]; rfl) rfl rfl
      (fun task' he => ⟨by rw [hre] at he; rw [ReactorPc.runNotify.inj he], hw⟩)
      (fun task' he => by rw [hre] at he; exact absurd he (by simp))
  · obtain ⟨hlen, rfl⟩ := hs
    exact h.reactor_calm (by rw [hr]; rfl) (by rw [hr]; rfl) rfl rfl (by simp [hr])
      fun _ _ => hlen
  · obtain ⟨hm, rfl⟩ := hs
    exact h.reactor_lock hm (by rw [hr]; rfl) (by simp [hr]) (hok rfl (by rw [hr]; rfl)) rfl rfl
  · subst hs
    exact h.reactor_stop hr
  · subst hs
    obtain ⟨hstop, hready, hgiven, hsent, hworker⟩ := h.stopping_of (.inl hr)
    exact h.reactor_releases (by rw [hr]; rfl) rfl
      (.stopping hstop hready hgiven hsent (.inr (.inl rfl)) hworker)
  · subst hs
    obtain ⟨hn, hw, hre⟩ := h.notifyOne
    rw [hr] at hre
    obtain ⟨hstop, hready, hgiven, hsent, hworker⟩ := hn.stopping_of (.inr (.inl hre))
    refine ⟨hn.fault, hn.worker_mutex, ?_,
      .stopping hstop hready hgiven hsent (.inr (.inr (.inl ⟨rfl, hw⟩))) hworker⟩
    rw [← hn.reactor_mutex, hre]
    rfl
  · obtain ⟨hd, rfl⟩ := hs
    obtain ⟨hstop, hready, hgiven, hsent, hworker⟩ := h.stopping_of (.inr (.inr hr))
    refine ⟨h.fault, h.worker_mutex, ?_,
      .stopping hstop hready hgiven hsent (.inr (.inr (.inr ⟨rfl, hd⟩))) hworker⟩
    rw [← h.reactor_mutex, hr]
    rfl

theorem Inv.step {a : Action} (h : Inv s) (hok : StepOk s a) (hs : machine.step s a = some t) :
    Inv t := by
  cases a with
  | worker => exact h.worker_step hs
  | reactor => exact h.reactor_step hok hs
  | run task =>
    simp only [machine, Worker.step, Option.ite_none_right_eq_some, Option.some.injEq] at hs
    obtain ⟨hr, rfl⟩ := hs
    exact h.reactor_calm (by rw [hr]; rfl) (by rw [hr]; rfl) rfl rfl (by simp [hr]) (by simp [hr])
  | stop =>
    simp only [machine, Worker.step, Option.ite_none_right_eq_some, Option.some.injEq] at hs
    obtain ⟨hr, rfl⟩ := hs
    exact h.reactor_calm (by rw [hr]; rfl) (by rw [hr]; rfl) rfl rfl (by simp [hr]) (by simp [hr])
  | spurious =>
    simp only [machine, Worker.step, Option.ite_none_right_eq_some, Option.some.injEq] at hs
    obtain ⟨hw, rfl⟩ := hs
    exact h.wake hw

theorem Inv.start : Inv start :=
  ⟨rfl, by decide, by decide, .quiet rfl rfl rfl rfl (.inl ⟨rfl, rfl, rfl⟩)⟩

/-! ### Progress -/

def WorkerPc.rank : WorkerPc → Nat
  | .blocked => 5
  | .woken => 4
  | .check => 3
  | .work => 2
  | .submit | .exit => 1
  | .start | .clear | .done => 0

def ReactorPc.rank : ReactorPc → Nat
  | .stopUnlock => 3
  | .runUnlock _ | .stopNotify => 2
  | .runNotify _ | .join => 1
  | _ => 0

/-- The steps until what the reactor's thread has asked for is done. -/
def State.remaining (s : State) : Nat :=
  s.worker.rank + s.reactor.rank

def State.Busy (s : State) : Prop :=
  s.submitted ≠ s.given.map answer ∨ s.stop = true

theorem State.notifyOne_rank (s : State) : s.notifyOne.worker.rank ≤ s.worker.rank := by
  unfold State.notifyOne
  by_cases hw : s.worker = .blocked
  · simp [hw, WorkerPc.rank]
  · exact Nat.le_of_eq (by rw [if_neg hw])

theorem Inv.step_remaining {a : Action} (h : Inv s) (hb : s.Busy)
    (hs : machine.step s a = some t) : t.remaining < s.remaining := by
  have hnotify := s.notifyOne_rank
  rcases h.phase with ⟨hstop, hgiven, hsent, hcalm, hworker⟩ |
    ⟨task, hstop, hready, htask, hgiven, hsent, hreactor, hworker⟩ |
    ⟨task, sent, hstop, htask, hgiven, hproc, hsent, hreactor, hworker⟩ |
    ⟨hstop, hready, hgiven, hsent, hreactor, hworker⟩
  · rcases hb with hb | hb
    · rw [hgiven, hsent] at hb
      exact absurd rfl hb
    · rw [hstop] at hb
      exact absurd hb Bool.false_ne_true
  · have hlen : s.submitted.length ≠ s.given.length := by
      rw [hgiven, hsent, List.length_map, List.length_append, List.length_singleton]
      omega
    cases a with
    | worker =>
      rcases hworker with hw | hw | hw | hw <;>
        simp only [machine, Worker.step, workerStep, hw, hready, hstop, htask, if_true,
          Bool.false_eq_true, if_false, Option.ite_none_right_eq_some, Option.some.injEq,
          reduceCtorEq] at hs
      · obtain ⟨_, rfl⟩ := hs
        simp [State.remaining, hw, WorkerPc.rank]
      · subst hs
        simp [State.remaining, hw, WorkerPc.rank]
      · subst hs
        simp [State.remaining, hw, WorkerPc.rank]
    | reactor =>
      rcases hreactor with hr | hr | ⟨hr, _⟩ <;>
        simp only [machine, Worker.step, reactorStep, hr, Option.ite_none_right_eq_some,
          Option.some.injEq] at hs
      · subst hs
        simp [State.remaining, hr, ReactorPc.rank]
      · subst hs
        simp only [State.remaining, hr, ReactorPc.rank]
        omega
      · exact absurd hs.1 hlen
    | run task' => rcases hreactor with hr | hr | ⟨hr, _⟩ <;> simp [machine, Worker.step, hr] at hs
    | stop => rcases hreactor with hr | hr | ⟨hr, _⟩ <;> simp [machine, Worker.step, hr] at hs
    | spurious =>
      simp only [machine, Worker.step, Option.ite_none_right_eq_some, Option.some.injEq] at hs
      obtain ⟨hw, rfl⟩ := hs
      simp [State.remaining, hw, WorkerPc.rank]
  · have hlen : s.submitted.length ≠ s.given.length := by
      rw [hgiven, hproc, hsent, List.length_map, List.length_append, List.length_singleton]
      omega
    cases a with
    | worker =>
      simp only [machine, Worker.step, workerStep, hworker, htask, Option.some.injEq] at hs
      subst hs
      simp [State.remaining, hworker, WorkerPc.rank]
    | reactor =>
      rcases hreactor with hr | hr <;>
        simp only [machine, Worker.step, reactorStep, hr, Option.ite_none_right_eq_some,
          Option.some.injEq] at hs
      · subst hs
        simp only [State.remaining, hr, ReactorPc.rank]
        omega
      · exact absurd hs.1 hlen
    | run task' => rcases hreactor with hr | hr <;> simp [machine, Worker.step, hr] at hs
    | stop => rcases hreactor with hr | hr <;> simp [machine, Worker.step, hr] at hs
    | spurious => simp [machine, Worker.step, hworker] at hs
  · cases a with
    | worker =>
      rcases hworker with hw | hw | hw | hw | hw | hw <;>
        simp only [machine, Worker.step, workerStep, hw, hready, hstop, if_true,
          Option.ite_none_right_eq_some, Option.some.injEq, reduceCtorEq] at hs
      · obtain ⟨_, rfl⟩ := hs
        simp [State.remaining, hw, WorkerPc.rank]
      · subst hs
        simp [State.remaining, hw, WorkerPc.rank]
      · subst hs
        simp [State.remaining, hw, WorkerPc.rank]
      · subst hs
        simp [State.remaining, hw, WorkerPc.rank]
    | reactor =>
      rcases hreactor with hr | hr | ⟨hr, _⟩ | ⟨hr, _⟩ <;>
        simp only [machine, Worker.step, reactorStep, hr, Option.ite_none_right_eq_some,
          Option.some.injEq, reduceCtorEq] at hs
      · subst hs
        simp [State.remaining, hr, ReactorPc.rank]
      · subst hs
        simp only [State.remaining, hr, ReactorPc.rank]
        omega
      · obtain ⟨_, rfl⟩ := hs
        simp [State.remaining, hr, ReactorPc.rank]
    | run task' =>
      rcases hreactor with hr | hr | ⟨hr, _⟩ | ⟨hr, _⟩ <;> simp [machine, Worker.step, hr] at hs
    | stop =>
      rcases hreactor with hr | hr | ⟨hr, _⟩ | ⟨hr, _⟩ <;> simp [machine, Worker.step, hr] at hs
    | spurious =>
      simp only [machine, Worker.step, Option.ite_none_right_eq_some, Option.some.injEq] at hs
      obtain ⟨hw, rfl⟩ := hs
      simp [State.remaining, hw, WorkerPc.rank]

theorem State.remaining_le (s : State) : s.remaining ≤ 8 := by
  have hw : s.worker.rank ≤ 5 := by cases s.worker <;> decide
  have hr : s.reactor.rank ≤ 3 := by cases s.reactor <;> simp [ReactorPc.rank]
  exact Nat.add_le_add hw hr

theorem Inv.started_of_busy (h : Inv s) (hb : s.Busy) : s.worker ≠ .start := by
  rcases h.phase with ⟨hstop, hgiven, hsent, hcalm, hworker⟩ |
    ⟨task, hstop, hready, htask, hgiven, hsent, hreactor, hworker⟩ |
    ⟨task, sent, hstop, htask, hgiven, hproc, hsent, hreactor, hworker⟩ |
    ⟨hstop, hready, hgiven, hsent, hreactor, hworker⟩
  · rcases hb with hb | hb
    · rw [hgiven, hsent] at hb
      exact absurd rfl hb
    · rw [hstop] at hb
      exact absurd hb Bool.false_ne_true
  · rcases hworker with hw | hw | hw | hw <;> rw [hw] <;> decide
  · rw [hworker]
    decide
  · rcases hworker with hw | hw | hw | hw | hw | hw <;> rw [hw] <;> decide

/-- While something is asked for, one of the threads can move by itself. -/
theorem Inv.busy_enabled (h : Inv s) (hb : s.Busy) (hr : s.reactor ≠ .stopped) :
    ∃ a t, a ≠ .spurious ∧ machine.step s a = some t := by
  have hworker : ∀ t, workerStep s = some t → ∃ a t, a ≠ .spurious ∧ machine.step s a = some t :=
    fun t ht => ⟨.worker, t, by decide, ht⟩
  have hreactor : ∀ t, reactorStep s = some t → ∃ a t, a ≠ .spurious ∧ machine.step s a = some t :=
    fun t ht => ⟨.reactor, t, by decide, ht⟩
  rcases hw : s.worker with _ | _ | _ | _ | _ | _ | _ | _ | _
  · exact absurd hw (h.started_of_busy hb)
  · exact hworker { s with ready := false, worker := .check } (by simp only [workerStep, hw])
  · cases hready : s.ready with
    | true => exact hworker { s with worker := .work } (by simp [workerStep, hw, hready])
    | false =>
      exact hworker { s with mutex := none, worker := .blocked }
        (by simp [workerStep, hw, hready])
  · -- the notification is still to come
    rcases h.phase with ⟨hs, hg, hn, _, _⟩ | ⟨_, _, _, _, _, _, he, _⟩ |
      ⟨_, _, _, _, _, _, _, _, hwp⟩ | ⟨_, _, _, _, he, _⟩
    · rcases hb with hb | hb
      · rw [hg, hn] at hb
        exact absurd rfl hb
      · rw [hs] at hb
        exact absurd hb Bool.false_ne_true
    · rcases he with he | he | ⟨_, he⟩
      · exact hreactor _ (by rw [reactorStep, he])
      · exact hreactor _ (by rw [reactorStep, he])
      · exact absurd hw he
    · simp [hw] at hwp
    · rcases he with he | he | ⟨_, he⟩ | ⟨he, _⟩
      · exact hreactor _ (by rw [reactorStep, he])
      · exact hreactor _ (by rw [reactorStep, he])
      · exact absurd hw he
      · exact absurd he hr
  · cases hm : s.reactor.holds with
    | false =>
      have hfree := h.mutex_none (by rw [hw]; rfl) hm
      exact hworker { s with mutex := some .worker, worker := .check }
        (by simp [workerStep, hw, hfree])
    | true =>
      rcases hr' : s.reactor with _ | task | task | task | task | task | _ | _ | _ | _ | _ | _ <;>
        rw [hr'] at hm <;> simp only [ReactorPc.holds, Bool.false_eq_true] at hm <;>
        exact hreactor _ (by rw [reactorStep, hr'])
  · cases hstop : s.stop with
    | true => exact hworker { s with worker := .exit } (by simp [workerStep, hw, hstop])
    | false =>
      cases htask : s.task with
      | none => exact hworker { s with fault := true } (by simp [workerStep, hw, hstop, htask])
      | some task =>
        exact hworker { s with processed := s.processed ++ [task], worker := .submit }
          (by simp [workerStep, hw, hstop, htask])
  · cases htask : s.task with
    | none => exact hworker { s with fault := true } (by simp [workerStep, hw, htask])
    | some task =>
      exact hworker
        { s with submitted := s.submitted ++ [(task.cpu, task)], worker := .clear }
        (by simp [workerStep, hw, htask])
  · exact hworker { s with finished := true, mutex := none, worker := .done }
      (by simp only [workerStep, hw])
  · rcases h.phase with ⟨_, _, _, _, hwp⟩ | ⟨_, _, _, _, _, _, _, hwp⟩ |
      ⟨_, _, _, _, _, _, _, _, hwp⟩ | ⟨_, _, _, _, he, _⟩
    · simp [hw] at hwp
    · simp [hw] at hwp
    · simp [hw] at hwp
    · rcases he with he | he | ⟨he, _⟩ | ⟨he, _⟩
      · exact hreactor { s with mutex := none, reactor := .stopNotify } (by rw [reactorStep, he])
      · exact hreactor { s.notifyOne with reactor := .join } (by rw [reactorStep, he])
      · exact hreactor { s with reactor := .stopped } (by simp [reactorStep, he, hw])
      · exact absurd he hr

theorem step_started {a : Action} (h : s.worker ≠ .start) (hs : machine.step s a = some t) :
    t.worker ≠ .start := by
  have hnotify : s.notifyOne.worker ≠ .start := by
    unfold State.notifyOne
    by_cases hw : s.worker = .blocked
    · rw [if_pos hw]
      simp
    · rw [if_neg hw]
      exact h
  cases a with
  | worker =>
    simp only [machine, Worker.step, workerStep] at hs
    split at hs <;> (repeat' split at hs) <;>
      simp only [Option.some.injEq, reduceCtorEq] at hs <;> subst hs <;> simp_all
  | reactor =>
    simp only [machine, Worker.step, reactorStep] at hs
    split at hs <;> (repeat' split at hs) <;>
      simp only [Option.some.injEq, reduceCtorEq] at hs <;> subst hs <;> assumption
  | run task =>
    simp only [machine, Worker.step, Option.ite_none_right_eq_some, Option.some.injEq] at hs
    exact hs.2 ▸ h
  | stop =>
    simp only [machine, Worker.step, Option.ite_none_right_eq_some, Option.some.injEq] at hs
    exact hs.2 ▸ h
  | spurious =>
    simp only [machine, Worker.step, Option.ite_none_right_eq_some, Option.some.injEq] at hs
    rw [← hs.2]
    simp

/-- What has been stored or sent stays so, and `stop` is not taken back. -/
theorem step_grows {a : Action} (hs : machine.step s a = some t) :
    s.given <+: t.given ∧ s.submitted <+: t.submitted ∧ (s.stop = true → t.stop = true) := by
  have hnotify : s.notifyOne.given = s.given ∧ s.notifyOne.submitted = s.submitted ∧
      s.notifyOne.stop = s.stop := by
    unfold State.notifyOne
    split <;> exact ⟨rfl, rfl, rfl⟩
  cases a with
  | worker =>
    simp only [machine, Worker.step, workerStep] at hs
    split at hs <;> (repeat' split at hs) <;>
      simp only [Option.some.injEq, reduceCtorEq] at hs <;> subst hs <;> simp
  | reactor =>
    simp only [machine, Worker.step, reactorStep] at hs
    split at hs <;> (repeat' split at hs) <;>
      simp only [Option.some.injEq, reduceCtorEq] at hs <;> subst hs <;> simp [hnotify]
  | run task =>
    simp only [machine, Worker.step, Option.ite_none_right_eq_some, Option.some.injEq] at hs
    rw [← hs.2]
    simp
  | stop =>
    simp only [machine, Worker.step, Option.ite_none_right_eq_some, Option.some.injEq] at hs
    rw [← hs.2]
    simp
  | spurious =>
    simp only [machine, Worker.step, Option.ite_none_right_eq_some, Option.some.injEq] at hs
    rw [← hs.2]
    simp

/-- A worker that has taken the mutex, in a run from a state that had given out `g` and was asked to
stop if `b` holds. -/
structure Running (g : List Task) (b : Prop) (s : State) : Prop where
  inv : Inv s
  started : s.worker ≠ .start
  given : g <+: s.given
  stop : b → s.stop = true

theorem Running.step {g : List Task} {b : Prop} {a : Action} (h : Running g b s)
    (hs : machine.step s a = some t) : Running g b t := by
  obtain ⟨hgiven, _, hstop⟩ := step_grows hs
  exact ⟨h.inv.step (fun _ _ => h.started) hs, step_started h.started hs, h.given.trans hgiven,
    fun hb => hstop (h.stop hb)⟩

theorem Inv.answered_of_stopped (h : Inv s) (hr : s.reactor = .stopped) :
    s.submitted = s.given.map answer := by
  rcases h.phase with ⟨_, hgiven, hsent, _, _⟩ | ⟨_, _, _, _, _, _, he, _⟩ |
    ⟨_, _, _, _, _, _, _, he, _⟩ | ⟨_, _, hgiven, hsent, _, _⟩
  · rw [hgiven, hsent]
  · simp [hr] at he
  · simp [hr] at he
  · rw [hgiven, hsent]

/-- Every task that has been stored is sent within eight further steps, whichever steps these are,
and until then one of the threads can move. -/
theorem Inv.tasks_sent (h : Inv s) {as : List Action} (he : machine.exec s as = some t) :
    s.given.map answer <+: t.submitted ∨
      as.length ≤ 8 ∧ ∃ a u, a ≠ .spurious ∧ machine.step t a = some u := by
  have hmono : ∀ u a v, s.given.map answer <+: u.submitted → machine.step u a = some v →
      s.given.map answer <+: v.submitted :=
    fun u a v hu hs => hu.trans (step_grows hs).2.1
  by_cases hb : s.Busy
  · have hrun : Running s.given False s := ⟨h, h.started_of_busy hb, List.prefix_rfl, False.elim⟩
    have hbusy : ∀ u, Running s.given False u → s.given.map answer <+: u.submitted ∨
        u.submitted ≠ u.given.map answer := by
      intro u hu
      by_cases hsent : u.submitted = u.given.map answer
      · rw [hsent]
        exact .inl (hu.given.map answer)
      · exact .inr hsent
    have hcloser : ∀ u a v, Running s.given False u → machine.step u a = some v →
        s.given.map answer <+: v.submitted ∨ v.remaining < u.remaining := by
      intro u a v hu hs
      rcases hbusy u hu with hsent | hne
      · exact .inl (hmono u a v hsent hs)
      · exact .inr (hu.inv.step_remaining (.inl hne) hs)
    have hkeep : ∀ u a v, Running s.given False u → machine.step u a = some v →
        Running s.given False v := fun _ _ _ hu hs => hu.step hs
    rcases Machine.exec_done_or_le hkeep (fun u a v _ hu hs => hmono u a v hu hs) State.remaining
      hcloser hrun he with hsent | hle
    · exact .inl hsent
    · have ht := Machine.exec_stable hkeep (fun u a v hu _ hs => hu.step hs) hrun hrun he
      rcases hbusy t ht with hsent | hne
      · exact .inl hsent
      · refine .inr ⟨?_, ht.inv.busy_enabled (.inl hne) fun hr => hne (ht.inv.answered_of_stopped hr)⟩
        have hbound := s.remaining_le
        omega
  · have hsent : s.submitted = s.given.map answer := by
      by_contra hn
      exact hb (.inl hn)
    exact .inl (Machine.exec_stable (P := fun _ => True) (fun _ _ _ _ _ => trivial)
      (fun u a v _ hu hs => hmono u a v hu hs) trivial (hsent ▸ List.prefix_rfl) he)

/-- A pending `stop` ends within eight further steps, and until then one of the threads can move. -/
theorem Inv.stop_returns (h : Inv s) (hstop : s.stop = true) {as : List Action}
    (he : machine.exec s as = some t) :
    as.length ≤ 8 ∧ (t.reactor = .stopped ∨ ∃ a u, a ≠ .spurious ∧ machine.step t a = some u) := by
  have hrun : Running s.given True s :=
    ⟨h, h.started_of_busy (.inr hstop), List.prefix_rfl, fun _ => hstop⟩
  have hkeep : ∀ u a v, Running s.given True u → machine.step u a = some v →
      Running s.given True v := fun _ _ _ hu hs => hu.step hs
  have ht := Machine.exec_stable hkeep (fun u a v hu _ hs => hu.step hs) hrun hrun he
  constructor
  · have hle := Machine.exec_done_or_le hkeep (fun _ _ _ _ (hf : False) _ => hf) State.remaining
      (fun u a v hu hs => .inr (hu.inv.step_remaining (.inr (hu.stop trivial)) hs)) hrun he
    have hbound := s.remaining_le
    rcases hle with hf | hle
    · exact hf.elim
    · omega
  · by_cases hr : t.reactor = .stopped
    · exact .inl hr
    · exact .inr (ht.inv.busy_enabled (.inr (ht.stop trivial)) hr)

/-! ### The hand-off -/

/-- The worker sleeps on a request. -/
def State.Stuck (s : State) : Prop :=
  s.worker = .blocked ∧ s.ready = false ∧ (s.given ≠ s.processed ∨ s.stop = true)

structure HandedOff (s : State) : Prop where
  /-- in order, each once, all but the last one in any case -/
  processed : ∃ unprocessed, unprocessed.length ≤ 1 ∧ s.given = s.processed ++ unprocessed
  submitted : ∃ unsent, unsent.length ≤ 1 ∧ s.given.map answer = s.submitted ++ unsent
  not_stuck : ¬ s.Stuck
  sent : ∀ as t, machine.exec s as = some t → s.given.map answer <+: t.submitted ∨
    as.length ≤ 8 ∧ ∃ a u, a ≠ .spurious ∧ machine.step t a = some u
  stops : s.stop = true → ∀ as t, machine.exec s as = some t →
    as.length ≤ 8 ∧ (t.reactor = .stopped ∨ ∃ a u, a ≠ .spurious ∧ machine.step t a = some u)

theorem Inv.lists (h : Inv s) :
    (∃ unprocessed, unprocessed.length ≤ 1 ∧ s.given = s.processed ++ unprocessed) ∧
      ∃ unsent, unsent.length ≤ 1 ∧ s.given.map answer = s.submitted ++ unsent := by
  rcases h.phase with ⟨_, hgiven, hsent, _, _⟩ | ⟨task, _, _, _, hgiven, hsent, _, _⟩ |
    ⟨task, sent, _, _, hgiven, hproc, hsent, _, _⟩ | ⟨_, _, hgiven, hsent, _, _⟩
  · exact ⟨⟨[], Nat.zero_le _, by rw [hgiven, List.append_nil]⟩,
      [], Nat.zero_le _, by rw [hgiven, hsent, List.append_nil]⟩
  · exact ⟨⟨[task], Nat.le_refl _, hgiven⟩,
      [answer task], Nat.le_refl _, by rw [hgiven, hsent, List.map_append, List.map_singleton]⟩
  · exact ⟨⟨[], Nat.zero_le _, by rw [hgiven, List.append_nil]⟩,
      [answer task], Nat.le_refl _, by
        rw [hgiven, hproc, hsent, List.map_append, List.map_singleton]⟩
  · exact ⟨⟨[], Nat.zero_le _, by rw [hgiven, List.append_nil]⟩,
      [], Nat.zero_le _, by rw [hgiven, hsent, List.append_nil]⟩

theorem Inv.not_stuck (h : Inv s) : ¬ s.Stuck := by
  rintro ⟨hw, hready, hrequest⟩
  rcases h.phase with ⟨hstop, hgiven, _, _, _⟩ | ⟨_, _, hr, _, _, _, _, _⟩ |
    ⟨_, _, _, _, _, _, _, _, hwp⟩ | ⟨_, hr, _, _, _, _⟩
  · rcases hrequest with hne | hs
    · exact hne hgiven
    · rw [hstop] at hs
      exact Bool.false_ne_true hs
  · rw [hr] at hready
    exact Bool.false_ne_true hready.symm
  · rw [hw] at hwp
    exact absurd hwp (by decide)
  · rw [hr] at hready
    exact Bool.false_ne_true hready.symm

/-- No task is lost when `run` and `stop` come after the worker's thread has taken the mutex. -/
theorem worker_handoff (h : machine.ReachableWith StepOk s) : HandedOff s := by
  have hinv : Inv s := h.invariant Inv.start fun _ _ _ hi hok hs => hi.step hok hs
  exact ⟨hinv.lists.1, hinv.lists.2, hinv.not_stuck, fun _ _ he => hinv.tasks_sent he,
    fun hstop _ _ he => hinv.stop_returns hstop he⟩

/-- The worker has processed one task and is stopping, and the tasks are handed off. -/
theorem worker_handoff_once :
    ∃ s, s.processed = [⟨1, 0⟩] ∧ s.stop = true ∧ s.worker = .done ∧ HandedOff s := by
  obtain ⟨s, hs, hp, hstop, hd⟩ : ∃ s,
      (machine.guarded fun s a => decide (StepOk s a)).exec machine.start
        [.worker, .worker, .worker, .run ⟨1, 0⟩, .reactor, .reactor, .reactor, .reactor, .worker,
          .worker, .worker, .worker, .worker, .worker, .reactor, .stop, .reactor, .reactor,
          .reactor, .reactor, .worker, .worker, .worker, .worker] = some s ∧
      s.processed = [⟨1, 0⟩] ∧ s.stop = true ∧ s.worker = .done := ⟨_, rfl, rfl, rfl, rfl⟩
  refine ⟨s, hp, hstop, hd, worker_handoff ((Machine.reachableWith_of_exec hs).mono ?_)⟩
  intro s a hok
  exact of_decide_eq_true hok

/-- A task given before the worker's thread has taken the mutex is lost, and the worker sleeps. -/
theorem worker_loses_task : ∃ s, machine.Reachable s ∧ s.given = [⟨1, 0⟩] ∧ s.processed = [] ∧
    s.Stuck ∧ ¬ HandedOff s := by
  obtain ⟨s, hs, hg, hp, hw, hready, hne⟩ : ∃ s, machine.exec machine.start
      [.run ⟨1, 0⟩, .reactor, .reactor, .reactor, .reactor, .worker, .worker, .worker] = some s ∧
      s.given = [⟨1, 0⟩] ∧ s.processed = [] ∧ s.worker = .blocked ∧ s.ready = false ∧
      s.given ≠ s.processed := ⟨_, rfl, rfl, rfl, rfl, rfl, by decide⟩
  have hstuck : s.Stuck := ⟨hw, hready, .inl hne⟩
  exact ⟨s, Machine.reachable_of_exec hs, hg, hp, hstuck, fun h => h.not_stuck hstuck⟩

end Dumbo.Reactor.Worker
