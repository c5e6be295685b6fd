import Dumbo.Fiber.MigratingInvariant

/-!
# The queue of ready workers

Where the dispatcher readies no worker that a wait queue still links, a ready worker is in the queue of
pointers once and is not readied again until it has been picked.
-/

namespace Dumbo.Fiber.Migrating

open Transition Scheduler

variable {s t : State} {a : Action} {c : CtxId}

/-- No deadline of a worker has passed while a wait queue links it. -/
def StepOk (s : State) : Action → Prop
  | .dispatch now => ∀ c ∈ s.sleepQueue, s.tp c ≤ now → ¬ Pinned c → s.waitHook c = none
  | _ => True

instance (s : State) (a : Action) : Decidable (StepOk s a) := by
  unfold StepOk
  cases a <;> infer_instance

theorem Inv.start : Inv machine.start := by
  have hdispatcher : ∀ c ∈ machine.start.lqueue, c = dispatcherCtx := by
    intro c hc
    exact List.mem_singleton.mp hc
  have hnone : ∀ {c : CtxId} {p : Prop}, c ∈ ([] : List CtxId) → p := fun hc => absurd hc List.not_mem_nil
  refine ⟨⟨.inl rfl, by decide, List.nodup_nil, List.nodup_singleton _, List.nodup_nil, fun c => ?_,
    fun _ => hnone, fun c hc => ?_, fun _ => hnone, fun _ hc => absurd rfl hc,
    fun _ _ => ⟨hnone, fun hc => ?_⟩, fun _ => List.nodup_nil, fun _ => hnone, List.nodup_nil,
    fun _ => hnone, fun _ hc => ?_⟩, fun _ => ?_, fun _ => rfl, fun _ _ => List.mem_singleton_self _⟩
  · show decide (c ≤ 1) = false ↔ c ∈ [] ∨ 2 ≤ c
    simp [Nat.lt_iff_add_one_le]
  · exact ⟨.inr (hdispatcher c hc), List.not_mem_nil, fun hk => absurd rfl hk⟩
  · exact absurd hc (by simp [machine, Migrating.start])
  · exact absurd hc (by simp [machine, Migrating.start])
  · exact ⟨by decide, List.not_mem_nil, by decide, List.not_mem_nil, fun hk => absurd rfl hk⟩

theorem Inv.step (h : Inv s) (hok : StepOk s a) (hs : Migrating.step s a = some t) : Inv t := by
  obtain ⟨⟨hrun, henabled⟩, hs⟩ := Option.ite_none_right_eq_some.mp hs |>.imp_right Option.some.inj
  subst hs
  cases a with
  | create policy => exact h.create hrun (of_decide_eq_true henabled) policy
  | yield => exact h.yield hrun (of_decide_eq_true henabled)
  | suspend q => exact h.suspend hrun (of_decide_eq_true henabled) q
  | waitUntil q sleepTp => exact h.waitUntil hrun (of_decide_eq_true henabled) q sleepTp
  | wake c =>
    obtain ⟨huser, hlinked⟩ := of_decide_eq_true henabled
    exact h.wake hrun huser hlinked
  | join c =>
    obtain ⟨huser, -⟩ := of_decide_eq_true henabled
    exact h.join hrun huser c
  | setTerminated =>
    obtain ⟨huser, hmain⟩ := of_decide_eq_true henabled
    exact h.setTerminated hrun huser hmain
  | resumed now =>
    obtain ⟨huser, hpc, hclock⟩ := of_decide_eq_true henabled
    exact h.resumed hrun huser hpc hclock
  | dispatch now =>
    obtain ⟨hactive, hclock⟩ := of_decide_eq_true henabled
    exact h.dispatch hrun hactive hclock hok

/-- A ready worker is detached: to detach or to ready it again would not pass an assertion. -/
structure QueuedOnce (s : State) : Prop where
  fault : s.fault = none ∨ s.fault = some .nullScheduler
  nodup : s.rqueue.Nodup
  queued : ∀ c ∈ s.rqueue, ¬ Pinned c ∧ s.attached c = false ∧ s.Unlinked c
  again : s.fault = none → ∀ c ∈ s.rqueue, (s.detach c).fault = some .assertion ∧
    (s.setReady c).fault = some .assertion ∧ (s.contextSetReady c).fault = some .assertion
  picked : s.fault = none → s.active ∉ s.rqueue ∧ s.attached s.active = true

theorem State.require_neg {p : Prop} [Decidable p] (h : ¬ p) : s.require p = s.fail .assertion := if_neg h

theorem fail_fault (hrun : s.fault = none) {fault : Fault} : (s.fail fault).fault = some fault := by
  rw [State.fail, hrun]
  rfl

theorem require_fault {fault : Fault} (hf : s.fault = some fault) (p : Prop) [Decidable p] :
    (s.require p).fault = some fault := by
  rw [State.require]
  split_ifs
  · exact hf
  · rw [State.fail, hf]
    rfl

theorem awakened_fault {fault : Fault} (hf : s.fault = some fault) (c : CtxId) :
    (s.awakened c).fault = some fault := by
  rw [State.awakened]
  split_ifs
  · exact require_fault hf (c ∉ s.lqueue)
  · exact require_fault hf (s.active ≠ c ∧ s.attached c = true ∧ s.Unlinked c ∧ ¬ Pinned c)

theorem setReady_fault {fault : Fault} (hf : s.fault = some fault) (c : CtxId) :
    (s.setReady c).fault = some fault := by
  refine awakened_fault ?_ c
  exact require_fault hf (s.terminated c = false)

theorem detach_detached (hrun : s.fault = none) (hc : s.attached c = false) :
    (s.detach c).fault = some .assertion := by
  have hattached : ¬ (s.active ≠ c ∧ s.attached c = true ∧ s.Unlinked c ∧ ¬ Pinned c) := by
    intro h
    exact Bool.false_ne_true (hc.symm.trans h.2.1)
  rw [State.detach, State.require_neg hattached]
  exact fail_fault hrun

theorem setReady_detached (hrun : s.fault = none) (hlive : s.terminated c = false) (hworker : ¬ Pinned c)
    (hc : s.attached c = false) : (s.setReady c).fault = some .assertion := by
  rw [State.setReady, State.require_pos hlive, State.awakened, if_neg hworker]
  exact detach_detached hrun hc

theorem contextSetReady_detached (hrun : s.fault = none) (hc : s.attached c = false) :
    (s.contextSetReady c).fault = some .assertion := by
  have hattached : ¬ (s.active ≠ c ∧ s.attached s.active = true ∧ s.attached c = true) := by
    intro h
    exact Bool.false_ne_true (hc.symm.trans h.2.2)
  rw [State.contextSetReady, State.require_neg hattached]
  exact setReady_fault (fail_fault hrun) c

theorem Inv.queuedOnce (h : Inv s) : QueuedOnce s := by
  have hb := h.queues
  have hdetached : ∀ c ∈ s.rqueue, s.attached c = false := fun c hc => (hb.detached c).mpr (.inl hc)
  refine ⟨hb.fault, hb.rqueue_nodup, fun c hc => ?_, fun hrun c hc => ?_, fun hrun => ?_⟩
  · obtain ⟨hworker, -, hs, hhook, hlive, -⟩ := hb.queued c hc
    exact ⟨hworker, hdetached c hc, fun hl => hworker (hb.ready c hl).1, hs, hb.not_done hlive, hhook⟩
  · obtain ⟨hworker, -, -, -, hlive, -⟩ := hb.queued c hc
    have hc' := hdetached c hc
    exact ⟨detach_detached hrun hc', setReady_detached hrun hlive hworker hc',
      contextSetReady_detached hrun hc'⟩
  · have ha := h.active hrun
    exact ⟨ha.rqueue, hb.attached_of ha.created ha.rqueue⟩

/-- Every run in which no deadline of a worker passes while a wait queue links it. -/
theorem migrating_queued_once (h : machine.ReachableWith StepOk s) : QueuedOnce s :=
  Inv.queuedOnce (h.invariant Inv.start fun _ _ _ hi hok hs => hi.step hok hs)

/-- A worker in a timed wait is notified before its deadline. -/
theorem migrating_queued_once_notified : ∃ s, s.rqueue = [2] ∧ s.clock = 3 ∧ QueuedOnce s := by
  obtain ⟨s, hs, hqueue, hclock⟩ : ∃ s,
      (machine.guarded fun s a => decide (StepOk s a)).exec machine.start
        [.create .post, .yield, .waitUntil (some 0) 5, .dispatch 3, .wake 2] = some s ∧
      s.rqueue = [2] ∧ s.clock = 3 := ⟨_, rfl, rfl, rfl⟩
  refine ⟨s, hqueue, hclock, migrating_queued_once ((Machine.reachableWith_of_exec hs).mono ?_)⟩
  intro s a hok
  exact of_decide_eq_true hok

/-- A worker whose deadline passes while a wait queue links it is readied by the dispatcher, and
`detach_worker_context` fails. -/
theorem migrating_expires_linked : ∃ s t, machine.Reachable s ∧ s.fault = none ∧ s.tp 2 ≤ 10 ∧
    s.waitHook 2 = some (.primitive 0) ∧ Migrating.step s (.dispatch 10) = some t ∧
    t.fault = some .assertion ∧ ¬ QueuedOnce t := by
  obtain ⟨s, t, hs, hrun, htp, hhook, hstep, hfault⟩ : ∃ s t, machine.exec machine.start
      [.create .post, .yield, .waitUntil (some 0) 5] = some s ∧ s.fault = none ∧ s.tp 2 ≤ 10 ∧
      s.waitHook 2 = some (.primitive 0) ∧ Migrating.step s (.dispatch 10) = some t ∧
      t.fault = some .assertion := ⟨_, _, rfl, rfl, by decide, rfl, rfl, rfl⟩
  refine ⟨s, t, Machine.reachable_of_exec hs, hrun, htp, hhook, hstep, hfault, fun h => ?_⟩
  have hother := h.fault
  rw [hfault] at hother
  exact absurd hother (by decide)

end Dumbo.Fiber.Migrating
