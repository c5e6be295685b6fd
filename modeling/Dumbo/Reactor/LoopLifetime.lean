import Dumbo.Fiber.LifetimeAccounting
import Dumbo.Reactor.Shutdown

/-!
# The event loop and the fibers it has started

`event_loop` goes on while more contexts are counted than the main one and the dispatcher.
-/

namespace Dumbo.Reactor.EventLoop

open Transition
open Fiber.Scheduler (CtxId mainCtx dispatcherCtx Scheduled)

/-- The part of the invariant that does not depend on how the last fiber ends. -/
structure InLoop (s : State) : Prop where
  scheduled : Scheduled s.sched
  main_running : s.loop ≠ .outside → s.sched.pc mainCtx = .running
  left : s.loop = .left → s.sched.active = mainCtx ∧ s.sched.contexts ≤ defaultContexts

section Steps

variable {s t : State}

theorem InLoop.main_inUser (h : InLoop s) (ho : s.loop ≠ .outside) (ha : s.sched.active = mainCtx) :
    s.sched.InUser := by
  refine ⟨?_, ?_⟩
  · rw [ha]
    decide
  · rw [ha]
    exact h.main_running ho

theorem InLoop.congr (h : InLoop s) (hs : t.sched = s.sched) (hl : t.loop = s.loop) : InLoop t := by
  refine ⟨hs ▸ h.scheduled, ?_, ?_⟩
  · rw [hs, hl]
    exact h.main_running
  · rw [hs, hl]
    exact h.left

theorem InLoop.sched (h : InLoop s) {a : Fiber.Scheduler.Action} {u : Fiber.Scheduler.State}
    (hm : s.sched.active = mainCtx → s.loop = .outside)
    (hs : Fiber.Scheduler.step s.sched a = some u) : InLoop { s with sched := u } := by
  refine ⟨h.scheduled.step hs, fun ho => ?_, fun hl => ?_⟩
  · have hne : mainCtx ≠ s.sched.active := fun ha => ho (hm ha.symm)
    rw [Fiber.Scheduler.step_pc hs hne]
    exact h.main_running ho
  · have hl' : s.loop = .left := hl
    rw [hm (h.left hl).1] at hl'
    cases hl'

theorem InLoop.setLoop (h : InLoop s) (ho : s.loop ≠ .outside) {pc : LoopPc} (hpc : pc ≠ .left) :
    InLoop { s with loop := pc } :=
  ⟨h.scheduled, fun _ => h.main_running ho, fun hl => absurd hl hpc⟩

theorem InLoop.main_call (h : InLoop s) (ho : s.loop ≠ .outside) (hl : s.loop ≠ .left)
    {u : Fiber.Scheduler.State} (hu : Scheduled u) (hpc : u.pc = s.sched.pc) :
    InLoop { s with sched := u } := by
  refine ⟨hu, fun _ => ?_, fun hl' => absurd hl' hl⟩
  rw [hpc]
  exact h.main_running ho

theorem InLoop.resume (h : InLoop s) (ho : s.loop ≠ .outside) (hl : s.loop ≠ .left)
    (ha : s.sched.active = mainCtx) (c : CtxId) : InLoop (s.resume c) := by
  unfold State.resume
  by_cases hw : s.sched.waitHook c = none
  · rw [if_pos hw]
    exact h.congr rfl rfl
  · rw [if_neg hw]
    exact h.main_call ho hl (h.scheduled.wake (h.main_inUser ho ha) hw) (Fiber.Scheduler.wake_pc _ _)

theorem InLoop.processFn (h : InLoop s) (ho : s.loop ≠ .outside) (hl : s.loop ≠ .left)
    (ha : s.sched.active = mainCtx) (m : MsgId) : InLoop (s.processFn m) := by
  unfold State.processFn
  by_cases hr : (s.message m).isReturn = true
  · rw [if_pos hr, State.finish]
    dsimp only
    split
    · exact h.congr rfl rfl
    · have hfin := h.congr (t := { s with finished := Function.update s.finished m true }) rfl rfl
      exact hfin.resume ho hl ha _
  · rw [if_neg hr]
    have hcreated := (h.scheduled.create (h.main_inUser ho ha) .post).reset (c := s.sched.ncreated)
    have hpc : ((s.sched.create .post).reset s.sched.ncreated).pc = s.sched.pc := by
      rw [Fiber.Scheduler.reset_waits, Fiber.Scheduler.create_post_pc]
    exact (h.main_call ho hl hcreated hpc).congr rfl rfl

theorem InLoop.step {a : Action} (h : InLoop s) (hs : step s a = some t) : InLoop t := by
  have hat : ∀ {pc}, s.atLoop pc → pc ≠ .outside → pc ≠ .left →
      s.loop ≠ .outside ∧ s.loop ≠ .left := fun hl ho hleft => ⟨hl.2 ▸ ho, hl.2 ▸ hleft⟩
  cases a with
  | sched a =>
    simp only [EventLoop.step, Option.ite_none_right_eq_some, Option.map_eq_some_iff] at hs
    obtain ⟨⟨-, hmay⟩, u, hu, rfl⟩ := hs
    exact h.sched (fun ha => mayCall_main hmay (Fiber.Scheduler.step_perform hu).1 ha) hu
  | runAt =>
    simp only [EventLoop.step, Option.ite_none_right_eq_some, Option.some.injEq] at hs
    obtain ⟨⟨-, hf, -⟩, rfl⟩ := hs
    have hsuspend : Fiber.Scheduler.step s.sched (.suspend reactorQueue) =
      some (s.sched.suspend reactorQueue) := if_pos (decide_eq_true hf.1)
    exact (h.sched hf.2 hsuspend).congr rfl rfl
  | runAtAsync =>
    simp only [EventLoop.step, Option.ite_none_right_eq_some, Option.some.injEq] at hs
    obtain ⟨-, rfl⟩ := hs
    exact h.congr rfl rfl
  | stop =>
    simp only [EventLoop.step, Option.ite_none_right_eq_some, Option.some.injEq] at hs
    obtain ⟨-, rfl⟩ := hs
    exact h.congr rfl rfl
  | complete =>
    simp only [EventLoop.step] at hs
    rcases hc : s.handler s.sched.active with _ | m <;> rw [hc] at hs
    · cases hs
    · simp only [Option.ite_none_right_eq_some, Option.some.injEq] at hs
      obtain ⟨-, rfl⟩ := hs
      rw [State.complete]
      dsimp only
      split
      · exact h.congr rfl rfl
      · exact h.congr rfl rfl
  | run =>
    simp only [EventLoop.step, Option.ite_none_right_eq_some, Option.some.injEq] at hs
    obtain ⟨⟨-, hl, hu⟩, rfl⟩ := hs
    refine ⟨h.scheduled.setAlgo .reactor, fun _ => ?_, fun hl => by cases hl⟩
    have hset := Fiber.Scheduler.setAlgo_eq h.scheduled.ready_nodup .reactor
    change (s.sched.setAlgo .reactor).pc mainCtx = .running
    rw [hset]
    exact hl.1 ▸ hu.2
  | test =>
    simp only [EventLoop.step, Option.ite_none_right_eq_some] at hs
    obtain ⟨⟨-, hl⟩, hs⟩ := hs
    have hloop := hat hl (by simp) (by simp)
    by_cases hc : s.running = true ∨ defaultContexts < s.sched.contexts
    · rw [if_pos hc, Option.some.injEq] at hs
      exact hs ▸ h.setLoop hloop.1 (by simp)
    · rw [if_neg hc, Option.some.injEq] at hs
      subst hs
      rw [not_or, Nat.not_lt] at hc
      exact ⟨h.scheduled, fun _ => h.main_running hloop.1, fun _ => ⟨hl.1, hc.2⟩⟩
  | poll events =>
    simp only [EventLoop.step, Option.ite_none_right_eq_some, Option.some.injEq] at hs
    obtain ⟨⟨-, hl⟩, rfl⟩ := hs
    exact (h.setLoop (hat hl (by simp) (by simp)).1 (by simp)).congr rfl rfl
  | drain =>
    simp only [EventLoop.step, Option.ite_none_right_eq_some] at hs
    obtain ⟨⟨-, hl⟩, hs⟩ := hs
    have hloop := hat hl (by simp) (by simp)
    rcases hr : s.ring with _ | ⟨_ | c, rest⟩ <;> rw [hr] at hs <;>
      simp only [Option.some.injEq, reduceCtorEq] at hs <;> subst hs
    · exact h.congr rfl rfl
    · have hrest := h.congr (t := { s with ring := rest }) rfl rfl
      exact hrest.resume hloop.1 hloop.2 hl.1 c
  | receiveAll =>
    simp only [EventLoop.step, Option.ite_none_right_eq_some, Option.some.injEq] at hs
    obtain ⟨⟨-, hl, -⟩, rfl⟩ := hs
    exact (h.setLoop (hat hl (by simp) (by simp)).1 (by simp)).congr rfl rfl
  | receive =>
    simp only [EventLoop.step] at hs
    rcases hl : s.loop with _ | _ | _ | _ | ⟨_ | ⟨m, rest⟩⟩ | _ <;> rw [hl] at hs <;>
      simp only [Option.ite_none_right_eq_some, Option.some.injEq, reduceCtorEq] at hs
    obtain ⟨⟨-, ha⟩, rfl⟩ := hs
    have hmove : InLoop { s with loop := .receive rest } := h.setLoop (by simp [hl]) (by simp)
    exact hmove.processFn (by simp) (by simp) ha m
  | yield =>
    simp only [EventLoop.step, Option.ite_none_right_eq_some, Option.some.injEq] at hs
    obtain ⟨⟨-, hl⟩, rfl⟩ := hs
    have hloop := hat hl (by simp) (by simp)
    have hyield := h.main_call hloop.1 hloop.2 (h.scheduled.yield (h.main_inUser hloop.1 hl.1))
      (Fiber.Scheduler.yield_pc _)
    exact hyield.setLoop hloop.1 (by simp)

theorem InLoop.start : InLoop start :=
  ⟨Scheduled.start, fun ho => absurd rfl ho, fun hl => by cases hl⟩

/-- The loop is not left before the end of every fiber that was started. -/
theorem left_terminated (h : machine.Reachable s) (hl : s.loop = .left) {c : CtxId}
    (hc : dispatcherCtx < c) (hn : c < s.sched.ncreated) : s.sched.terminated c = true := by
  have hi : InLoop s := h.invariant InLoop.start fun _ _ _ hi hs => hi.step hs
  exact hi.scheduled.registered.terminated_of_contexts (hi.left hl).2 hc hn

end Steps

/-- The account of the contexts in every run of fibers on one thread, and what it comes to for the event
loop. -/
theorem lifetime_accounted {s : Fiber.Lifetime.State} {l : State}
    (hs : Fiber.Lifetime.machine.Reachable s) (hl : machine.Reachable l) :
    Fiber.Lifetime.Accounted s ∧ (l.loop = .left →
      ∀ c, dispatcherCtx < c → c < l.sched.ncreated → l.sched.terminated c = true) :=
  ⟨Fiber.Lifetime.reachable_accounted hs, fun hleft _ hc hn => left_terminated hl hleft hc hn⟩

/-- A fiber is moved and joined before its end, and a loop is left behind two fibers. -/
theorem lifetime_accounted_joined : ∃ (s : Fiber.Lifetime.State) (l : State),
    s.destroyed = [2] ∧ s.joined = [(mainCtx, 2)] ∧ l.loop = .left ∧ l.sched.ncreated = 4 ∧
      Fiber.Lifetime.Accounted s ∧ (l.loop = .left →
        ∀ c, dispatcherCtx < c → c < l.sched.ncreated → l.sched.terminated c = true) := by
  obtain ⟨s, hs, hd, hj⟩ : ∃ s, Fiber.Lifetime.machine.exec Fiber.Lifetime.machine.start
      [.create .post, .move 0, .join 1, .sched (.dispatch 0), .sched .setTerminated,
        .sched (.dispatch 1), .joinResumed] = some s ∧ s.destroyed = [2] ∧
      s.joined = [(mainCtx, 2)] := ⟨_, rfl, rfl, rfl⟩
  obtain ⟨l, hl, hleft, hn⟩ : ∃ l, machine.exec machine.start
      [.sched (.create .post), .sched (.detach 2), .run, .test, .poll [], .receiveAll, .receive, .yield,
        .sched (.dispatch 0), .stop, .sched .setTerminated, .complete, .sched .setTerminated, .test,
        .poll [], .receiveAll, .yield, .sched (.dispatch 0), .test] = some l ∧
      l.loop = .left ∧ l.sched.ncreated = 4 := ⟨_, rfl, rfl, rfl⟩
  have h := lifetime_accounted (Machine.reachable_of_exec hs) (Machine.reachable_of_exec hl)
  exact ⟨s, l, hd, hj, hleft, hn, h⟩

end Dumbo.Reactor.EventLoop
