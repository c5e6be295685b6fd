import Dumbo.Fiber.SchedulerInvariant

/-!
# Every run keeps the scheduler well-formed

One step keeps the invariant, so every reachable state has it. A fault stands for a failed assertion
or for a `get_next_` whose result must not be resumed.
-/

namespace Dumbo.Fiber.Scheduler

open Transition

section Frames

variable (s : State) (c : CtxId)

theorem require_active (p : Prop) [Decidable p] : (s.require p).active = s.active := by
  unfold State.require
  split <;> rfl

theorem require_waits (p : Prop) [Decidable p] : (s.require p).toWaits = s.toWaits := by
  unfold State.require
  split <;> rfl

theorem release_active : (s.release c).active = s.active := by
  simp only [State.release]
  split
  · exact require_active _ _
  · rfl

theorem release_waits : (s.release c).toWaits = s.toWaits := by
  simp only [State.release]
  split
  · exact require_waits _ _
  · rfl

theorem reset_active : (s.reset c).active = s.active := by
  unfold State.reset
  split
  · exact release_active _ c
  · rfl

theorem reset_waits : (s.reset c).toWaits = s.toWaits := by
  unfold State.reset
  split
  · exact release_waits _ c
  · rfl

theorem releaseTerminated_active (l : List CtxId) :
    (s.releaseTerminated l).active = s.active := by
  induction l generalizing s with
  | nil => rfl
  | cons c rest ih =>
    rw [State.releaseTerminated, ih, release_active]
    exact require_active s _

theorem releaseTerminated_waits (l : List CtxId) :
    (s.releaseTerminated l).toWaits = s.toWaits := by
  induction l generalizing s with
  | nil => rfl
  | cons c rest ih =>
    rw [State.releaseTerminated, ih, release_waits]
    exact require_waits s _

theorem sleep2ready_active (now : TimePoint) (l : List CtxId) :
    (s.sleep2ready now l).active = s.active := by
  induction l generalizing s with
  | nil => rfl
  | cons c rest ih =>
    simp only [State.sleep2ready]
    split
    · rw [ih]
      simp only [State.awakened, require_active]
    · exact require_active s _

end Frames

variable {s t : State}

theorem Scheduled.resumed (h : Scheduled s) {now : TimePoint} (hnow : s.clock ≤ now) :
    Scheduled (s.resumed now) := by
  have hs := h.setClock hnow
  rcases hp : s.pc s.active with _ | sleepTp | c <;> simp only [State.resumed, hp]
  · exact hs
  · by_cases hlt : now < sleepTp
    · simp only [hlt, if_true]
      exact hs.returned (hs.toConsistent.not_linked_of_lt hp hlt)
    · simp only [hlt, if_false]
      exact hs.waitUnlink.returned (Function.update_self ..)
  · apply hs.waitUnlink.reset.returned
    rw [reset_waits, reset_active]
    exact Function.update_self ..

theorem Consistent.resume_dispatcher (h : Consistent s) (hd : s.active = dispatcherCtx)
    {c : CtxId} {rest : List CtxId} (hr : s.algo.ready = c :: rest) :
    Consistent ({ s with algo := ⟨s.algo.kind, rest⟩ : State }.resume c (some dispatcherCtx)) := by
  have hc : c ∈ s.algo.ready := by
    rw [hr]
    exact List.mem_cons_self
  have hcd : dispatcherCtx ≠ c := fun he => h.active_not_ready (hd ▸ he ▸ hc)
  have hlive : s.Live dispatcherCtx := hd ▸ h.active_live
  have hcore := (h.toCore.switch hr).setReady hlive hcd
    fun q hq => absurd rfl (h.hook_live _ q hq).2
  have hn := (h.toCore.switch hr).ready_nodup
  simp only [State.resume]
  rw [setReady_eq hn hlive.2] at hcore ⊢
  refine ⟨hcore, h.ready_live c hc, ?_, ?_, h.joined_live, ?_⟩
  · intro hs
    exact h.sleep_not_ready c (List.mem_of_mem_erase hs) hc
  · intro q hq
    exact h.hook_timedOut c q hq hc
  · intro _
    exact List.mem_append_right _ (List.mem_singleton.mpr rfl)

theorem Scheduled.dispatch (h : Scheduled s) (hd : s.active = dispatcherCtx) {now : TimePoint}
    (hnow : s.clock ≤ now) : Scheduled (s.dispatch now) := by
  have hrel := (h.setClock hnow).releaseTerminated rfl
  have hclock : ({ s with clock := now : State }.releaseTerminated s.terminatedQueue).clock = now := by
    rw [releaseTerminated_waits]
  have hsleep := hrel.sleep2ready rfl hclock
  have hactive := sleep2ready_active
    ({ s with clock := now : State }.releaseTerminated s.terminatedQueue) now
    ({ s with clock := now : State }.releaseTerminated s.terminatedQueue).sleepQueue
  rw [releaseTerminated_active] at hactive
  simp only [State.dispatch]
  generalize State.sleep2ready _ now _ = u at hsleep hactive ⊢
  rcases hr : u.algo.ready with _ | ⟨c, rest⟩ <;> simp only [Algo.pickNext, hr]
  · exact hsleep
  · refine ⟨hsleep.toConsistent.resume_dispatcher (hactive.trans hd) hr, ?_⟩
    rw [resume_registry]
    exact hsleep.registered

theorem Registered.start : Registered start.toRegistry := by
  refine ⟨by decide, List.nodup_nil, ?_, List.nodup_nil, ?_, ?_, ?_, ?_, ?_, by decide⟩
  · exact fun c hc => absurd hc List.not_mem_nil
  · exact fun c hc => absurd hc List.not_mem_nil
  · exact fun c hc => absurd hc Bool.false_ne_true
  · exact fun c hc => absurd hc Bool.false_ne_true
  · exact fun c hc hl => absurd hl.1 (Nat.not_lt.mpr hc)
  · exact fun c hc hl => absurd hl (Nat.not_lt.mpr hc)

theorem Scheduled.start : Scheduled start := by
  have hready : ∀ c ∈ Scheduler.start.algo.ready, c = dispatcherCtx := by
    intro c hc
    exact List.mem_singleton.mp hc
  have hlinked : ∀ c q, Scheduler.start.waitHook c ≠ some q := by
    intro c q hq
    exact Option.some_ne_none q hq.symm
  refine ⟨⟨⟨rfl, List.nodup_singleton _, ?_, by decide, List.nodup_nil, ?_, ?_, ?_, ?_, ?_,
    fun _ => List.nodup_nil, ?_, fun _ _ => rfl⟩, ⟨by decide, rfl⟩, List.not_mem_nil, ?_, ?_,
    fun _ => List.mem_singleton.mpr rfl⟩, Registered.start⟩
  · intro c hc
    rw [hready c hc]
    exact ⟨by decide, rfl⟩
  · exact fun c hc => absurd hc List.not_mem_nil
  · exact fun c hc => absurd hc List.not_mem_nil
  · exact fun c hc => absurd hc List.not_mem_nil
  · exact fun c q hq => absurd hq (hlinked c q)
  · exact fun c q hq => absurd hq (hlinked c q)
  · exact fun c d => ⟨fun hc => absurd hc List.not_mem_nil, fun hq => absurd hq (hlinked c _)⟩
  · exact fun q hq => absurd hq (hlinked _ q)
  · exact fun c d hq => absurd hq (hlinked c _)

/-- One step: an action is one of the calls above, and its guard is what the call relies on. -/
theorem Scheduled.step {a : Action} (h : Scheduled s) (hs : machine.step s a = some t) :
    Scheduled t := by
  simp only [machine, Scheduler.step, Option.ite_none_right_eq_some, Option.some.injEq] at hs
  obtain ⟨he, rfl⟩ := hs
  cases a with
  | create policy => exact h.create (of_decide_eq_true he) policy
  | detach c => exact h.reset
  | yield => exact h.yield (of_decide_eq_true he)
  | suspend q => exact h.suspend (of_decide_eq_true he) q
  | waitUntil q sleepTp => exact h.waitUntil (of_decide_eq_true he) q sleepTp
  | wake c =>
    obtain ⟨hu, hq⟩ := of_decide_eq_true he
    exact h.wake hu hq
  | join c =>
    obtain ⟨hu, hj, _⟩ := of_decide_eq_true he
    exact h.join hu hj
  | setTerminated =>
    obtain ⟨hu, hm⟩ := of_decide_eq_true he
    exact h.setTerminated hu hm
  | setAlgo kind => exact h.setAlgo kind
  | resumed now =>
    obtain ⟨_, _, hnow⟩ := of_decide_eq_true he
    exact h.resumed hnow
  | dispatch now =>
    obtain ⟨hd, hnow⟩ := of_decide_eq_true he
    exact h.dispatch hd hnow

theorem reachable_scheduled (h : machine.Reachable s) : Scheduled s :=
  Machine.Reachable.invariant Scheduled.start (fun _ _ _ h hs => h.step hs) h

/-- What the scheduler promises of its queues between two steps. -/
structure WellFormed (s : State) : Prop where
  active_not_ready : s.active ∉ s.algo.ready
  ready_nodup : s.algo.ready.Nodup
  ready_not_terminated : ∀ c ∈ s.algo.ready, s.terminated c = false
  /-- a sleeping context is suspended -/
  sleep_suspended : ∀ c ∈ s.sleepQueue, c ≠ s.active ∧ c ∉ s.algo.ready
  dispatcher_ready : s.active ≠ dispatcherCtx → s.algo.ready.count dispatcherCtx = 1

theorem Consistent.wellFormed (h : Consistent s) : WellFormed s := by
  refine ⟨h.active_not_ready, h.ready_nodup, fun c hc => (h.ready_live c hc).2, ?_, ?_⟩
  · intro c hc
    refine ⟨?_, h.sleep_not_ready c hc⟩
    rintro rfl
    exact h.active_not_sleeping hc
  · intro hd
    exact List.count_eq_one_of_mem h.ready_nodup (h.dispatcher_ready hd)

theorem Consistent.pickNext (h : Consistent s) (hd : s.active ≠ dispatcherCtx) :
    ∃ c, s.algo.pickNext.1 = some c ∧ s.terminated c = false ∧ c ≠ s.active := by
  obtain ⟨c, rest, hr⟩ := List.exists_cons_of_ne_nil (List.ne_nil_of_mem (h.dispatcher_ready hd))
  have hc : c ∈ s.algo.ready := by
    rw [hr]
    exact List.mem_cons_self
  refine ⟨c, ?_, (h.ready_live c hc).2, ?_⟩
  · simp only [Algo.pickNext, hr]
  · rintro rfl
    exact h.active_not_ready hc

/-- In every reachable state the queues are well-formed, no `get_next_` has returned a null or a
terminated context and no assertion has failed, the next `get_next_` has a context to return, and
`set_algo` keeps the ready contexts in their order. -/
theorem scheduler_wellFormed (h : machine.Reachable s) :
    WellFormed s ∧ s.fault = none ∧
      (s.active ≠ dispatcherCtx →
        ∃ c, s.algo.pickNext.1 = some c ∧ s.terminated c = false ∧ c ≠ s.active) ∧
      ∀ kind, (s.setAlgo kind).algo = ⟨kind, s.algo.ready⟩ := by
  have hs := (reachable_scheduled h).toConsistent
  refine ⟨hs.wellFormed, hs.fault_none, hs.pickNext, ?_⟩
  intro kind
  rw [setAlgo_eq hs.ready_nodup]

/-- A fiber that waits with a deadline times out while it is linked, the algorithm is replaced, and
a second fiber wakes the first one and terminates. -/
theorem scheduler_wellFormed_timeout :
    ∃ s, machine.Reachable s ∧ s.active = dispatcherCtx ∧ s.algo.ready = [3] ∧
      WellFormed s ∧ s.fault = none := by
  obtain ⟨s, hs, hd, hr⟩ : ∃ s, machine.exec machine.start [.create .post, .create .dispatch,
      .waitUntil (some 0) 5, .dispatch 3, .yield, .join 3, .dispatch 6, .setAlgo .reactor,
      .wake 3, .setTerminated] = some s ∧ s.active = dispatcherCtx ∧ s.algo.ready = [3] :=
    ⟨_, rfl, rfl, rfl⟩
  have hreach := Machine.reachable_of_exec hs
  have h := scheduler_wellFormed hreach
  exact ⟨s, hreach, hd, hr, h.1, h.2.1⟩

end Dumbo.Fiber.Scheduler
