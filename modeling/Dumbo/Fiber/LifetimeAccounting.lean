import Dumbo.Fiber.Lifetime
import Dumbo.Fiber.SchedulerSteps
import Mathlib.Data.List.Count
import Mathlib.Logic.Equiv.Basic
import Mathlib.Order.Interval.Finset.Nat

/-!
# How long a worker context lives

A context is destroyed by the last of the two references that are dropped: that of the `fiber` object,
at `join`, `detach` or not at all, and that of the scheduler, when `release_terminated_` takes the context
from the terminated queue.
-/

namespace Dumbo.Fiber

namespace Scheduler

/-! ### The references that `release_terminated_` drops -/

theorem destroyedBy_eq {l : List CtxId} (hn : l.Nodup) (useCount : CtxId → Nat) :
    destroyedBy useCount l = l.filter fun c => useCount c - 1 = 0 := by
  induction l generalizing useCount with
  | nil => rfl
  | cons c rest ih =>
    rw [List.nodup_cons] at hn
    have hrest : rest.filter (fun x => Function.update useCount c (useCount c - 1) x - 1 = 0) =
        rest.filter fun x => useCount x - 1 = 0 := by
      apply List.filter_congr
      intro x hx
      have hne : x ≠ c := fun he => hn.1 (he ▸ hx)
      rw [Function.update_of_ne hne]
    rw [destroyedBy, ih hn.2, hrest]
    by_cases hz : useCount c - 1 = 0
    · rw [if_pos hz, List.filter_cons_of_pos]
      exact decide_eq_true hz
    · rw [if_neg hz, List.filter_cons_of_neg]
      simpa using hz

section Registry

variable (s : State) (l : List CtxId)

theorem releaseTerminated_useCount (c : CtxId) :
    (s.releaseTerminated l).useCount c = s.useCount c - l.count c := by
  induction l generalizing s with
  | nil => rfl
  | cons d rest ih =>
    rw [State.releaseTerminated, ih, release_registry]
    simp only [require_registry]
    by_cases hc : c = d
    · rw [hc, Function.update_self, List.count_cons_self]
      omega
    · rw [Function.update_of_ne hc, List.count_cons_of_ne (Ne.symm hc)]

theorem releaseTerminated_workerQueue :
    (s.releaseTerminated l).workerQueue = s.workerQueue.diff l := by
  induction l generalizing s with
  | nil => rfl
  | cons d rest ih =>
    rw [State.releaseTerminated, ih, release_registry, List.diff_cons]
    simp only [require_registry]

theorem dispatch_registry (now : TimePoint) : (s.dispatch now).toRegistry =
    ({ s with clock := now }.releaseTerminated s.terminatedQueue).toRegistry := by
  simp only [State.dispatch]
  split
  · rw [sleep2ready_registry]
  · rw [resume_registry]
    simp only [sleep2ready_registry]

variable {s} in
theorem create_registry (policy : Launch) : (s.create policy).toRegistry = { s.toRegistry with
    ncreated := s.ncreated + 1
    contexts := s.contexts + 1
    useCount := Function.update s.useCount s.ncreated 2
    joinable := Function.update s.joinable s.ncreated true
    workerQueue := s.workerQueue ++ [s.ncreated] } := by
  cases policy with
  | post => simp only [State.create, setReady_registry, require_registry]
  | dispatch => simp only [State.create, resume_registry, require_registry]

end Registry

/-! ### What has been reaped and destroyed -/

/-- The logs agree with the registry. -/
structure Reaped (r : Registry) (reaped destroyed : List CtxId) : Prop where
  reaped_nodup : reaped.Nodup
  reaped_iff : ∀ c, c ∈ reaped ↔ dispatcherCtx < c ∧ c < r.ncreated ∧ c ∉ r.workerQueue
  destroyed_nodup : destroyed.Nodup
  destroyed_iff : ∀ c, c ∈ destroyed ↔ dispatcherCtx < c ∧ c < r.ncreated ∧ r.useCount c = 0

section Reaped

variable {r r' : Registry} {reaped destroyed : List CtxId} {s : State}

theorem Reaped.congr (h : Reaped r reaped destroyed) (hn : r'.ncreated = r.ncreated)
    (hw : r'.workerQueue = r.workerQueue) (hu : r'.useCount = r.useCount) :
    Reaped r' reaped destroyed := by
  refine ⟨h.reaped_nodup, fun c => ?_, h.destroyed_nodup, fun c => ?_⟩
  · rw [hn, hw]
    exact h.reaped_iff c
  · rw [hn, hu]
    exact h.destroyed_iff c

theorem Reaped.create (h : Reaped s.toRegistry reaped destroyed) (policy : Launch) :
    Reaped (s.create policy).toRegistry reaped destroyed := by
  rw [create_registry]
  refine ⟨h.reaped_nodup, fun c => ?_, h.destroyed_nodup, fun c => ?_⟩
  · rw [h.reaped_iff]
    simp only [List.mem_append, List.mem_singleton, not_or]
    constructor
    · rintro ⟨hd, hlt, hw⟩
      exact ⟨hd, Nat.lt_succ_of_lt hlt, hw, Nat.ne_of_lt hlt⟩
    · rintro ⟨hd, hlt, hw, hne⟩
      exact ⟨hd, Nat.lt_of_le_of_ne (Nat.le_of_lt_succ hlt) hne, hw⟩
  · rw [h.destroyed_iff]
    by_cases hc : c = s.ncreated
    · rw [hc]
      simp only [Function.update_self, Nat.lt_irrefl, false_and, and_false, Nat.reduceEqDiff]
    · have hlt : c < s.ncreated + 1 ↔ c < s.ncreated :=
        ⟨fun hlt => Nat.lt_of_le_of_ne (Nat.le_of_lt_succ hlt) hc, Nat.lt_succ_of_lt⟩
      simp only [Function.update_of_ne hc, hlt]

theorem Reaped.reset (h : Reaped s.toRegistry reaped destroyed) (hr : Registered s.toRegistry)
    {c : CtxId} (hj : s.joinable c = true) :
    Reaped (s.reset c).toRegistry reaped (destroyed ++ destroyedBy s.useCount [c]) := by
  obtain ⟨hd, hlt⟩ := hr.joinable_worker c hj
  have hcount := hr.counted c hd hlt
  rw [hj, Bool.toNat_true] at hcount
  have hnot : c ∉ destroyed := by
    rw [h.destroyed_iff]
    rintro ⟨-, -, hz⟩
    omega
  rw [State.reset, if_pos hj, release_registry, destroyedBy_eq (List.nodup_singleton c)]
  refine ⟨h.reaped_nodup, h.reaped_iff, ?_, fun x => ?_⟩
  · rw [List.nodup_append]
    refine ⟨h.destroyed_nodup, (List.nodup_singleton c).filter _, fun x hx y hy => ?_⟩
    rw [List.mem_singleton.mp (List.mem_of_mem_filter hy)]
    exact fun he => hnot (he ▸ hx)
  · rw [List.mem_append, h.destroyed_iff, List.mem_filter, List.mem_singleton]
    simp only [decide_eq_true_eq]
    by_cases hx : x = c
    · have hused : s.useCount c ≠ 0 := by omega
      simp only [hx, Function.update_self, hd, hlt, hused, true_and, and_false, false_or]
    · simp only [Function.update_of_ne hx, hx, false_and, or_false]

theorem Reaped.dispatch (h : Reaped s.toRegistry reaped destroyed) (hr : Registered s.toRegistry)
    (now : TimePoint) : Reaped (s.dispatch now).toRegistry (reaped ++ s.terminatedQueue)
      (destroyed ++ destroyedBy s.useCount s.terminatedQueue) := by
  have hagree := (releaseTerminated_agree { s with clock := now } s.terminatedQueue).ncreated
  have hmem : ∀ c ∈ s.terminatedQueue, dispatcherCtx < c ∧ c < s.ncreated ∧ c ∈ s.workerQueue := by
    intro c hc
    have hw := (hr.terminated_mem c hc).2
    exact ⟨(hr.worker_mem c hw).1, (hr.worker_mem c hw).2, hw⟩
  have hused : ∀ c ∈ s.terminatedQueue, s.useCount c ≠ 0 := by
    intro c hc
    obtain ⟨hd, hlt, hw⟩ := hmem c hc
    rw [hr.counted c hd hlt, if_pos hw]
    omega
  rw [dispatch_registry, destroyedBy_eq hr.terminated_nodup]
  refine ⟨?_, fun c => ?_, ?_, fun c => ?_⟩
  · rw [List.nodup_append]
    refine ⟨h.reaped_nodup, hr.terminated_nodup, fun x hx y hy he => ?_⟩
    exact ((h.reaped_iff x).mp hx).2.2 (he ▸ (hmem y hy).2.2)
  · rw [releaseTerminated_workerQueue, hagree, List.mem_append, h.reaped_iff,
      hr.worker_nodup.mem_sdiff_iff]
    constructor
    · rintro (⟨hd, hlt, hw⟩ | hc)
      · exact ⟨hd, hlt, fun hm => hw hm.1⟩
      · exact ⟨(hmem c hc).1, (hmem c hc).2.1, fun hm => hm.2 hc⟩
    · rintro ⟨hd, hlt, hm⟩
      by_cases hc : c ∈ s.terminatedQueue
      · exact .inr hc
      · exact .inl ⟨hd, hlt, fun hw => hm ⟨hw, hc⟩⟩
  · rw [List.nodup_append]
    refine ⟨h.destroyed_nodup, hr.terminated_nodup.filter _, fun x hx y hy he => ?_⟩
    exact hused y (List.mem_of_mem_filter hy) (he ▸ ((h.destroyed_iff x).mp hx).2.2)
  · rw [releaseTerminated_useCount, hagree, List.mem_append, h.destroyed_iff, List.mem_filter]
    simp only [decide_eq_true_eq]
    by_cases hc : c ∈ s.terminatedQueue
    · have hone := List.count_eq_one_of_mem hr.terminated_nodup hc
      have hm := hmem c hc
      simp only [hc, hone, hm.1, hm.2.1, hused c hc, true_and, and_false, false_or]
    · simp only [hc, false_and, or_false, List.count_eq_zero_of_not_mem hc, Nat.sub_zero]

end Reaped

/-! ### Contexts that join -/

/-- A context in `join` is linked in the queue of the context it joins until that has terminated, and is
ready from then on. -/
def Joining (s : State) : Prop :=
  ∀ x c, s.pc x = .joining c → s.waitHook x = some (.join c) ∨
    s.terminated c = true ∧ (x = s.active ∨ x ∈ s.algo.ready)

section Joining

variable {s t : State} {a : Action}

theorem join_hook (h : Consistent s) (hu : s.InUser) {c : CtxId} (hc : ¬ s.terminated c = true) :
    (s.join c).waitHook s.active = some (.join c) := by
  rw [State.join, if_neg hc, waitLink_eq (h.not_linked hu.2)]
  simp only [resumeNext_waits, Function.update_self]

theorem setTerminated_joining (h : Scheduled s) {x c : CtxId}
    (hq : s.waitHook x = some (.join c)) : s.setTerminated.waitHook x = some (.join c) ∨
      c = s.active ∧ (x = s.setTerminated.active ∨ x ∈ s.setTerminated.algo.ready) := by
  by_cases hc : c = s.active
  · right
    refine ⟨hc, ?_⟩
    have hmem : x ∈ s.waitQueue s.active := (h.queue_hook x s.active).mpr (hc ▸ hq)
    have hready := mem_notifyJoiners_of_mem
      { s with terminated := Function.update s.terminated s.active true } hmem
    rcases mem_schedulerSetTerminated _ hready with hr | ha
    · exact .inr hr
    · exact .inl ha.symm
  · left
    have hnot : x ∉ s.waitQueue s.active := by
      intro hm
      have he := (h.queue_hook x s.active).mp hm
      rw [hq, Option.some.injEq, QueueId.join.injEq] at he
      exact hc he
    rw [State.setTerminated, State.schedulerSetTerminated, resumeNext_waits]
    dsimp only
    rw [require_waits, notifyJoiners_hook_ne _ hnot]
    exact hq

theorem Joining.step (h : Joining s) (hsched : Scheduled s) (hd : s.pc dispatcherCtx = .running)
    (hs : step s a = some t) (hw : ∀ c, a = .wake c → ∀ d, s.waitHook c ≠ some (.join d)) :
    Joining t := by
  obtain ⟨he, hperform⟩ := step_perform hs
  intro x c hp
  by_cases hx : x = s.active
  · rw [hx] at hp ⊢
    rcases step_pc_active hs hd with hr | ⟨q, sleepTp, -, hr⟩ | ⟨d, ha, hr⟩
    · rw [hr] at hp
      cases hp
    · rw [hr] at hp
      cases hp
    · rw [hr, Pc.joining.injEq] at hp
      subst hp
      subst ha
      left
      rw [← hperform]
      -- a context that had terminated would not have been waited for
      apply join_hook hsched.toConsistent (enabled_inUser he (by simp) (by simp))
      intro ht
      rw [← hperform, perform, State.join, if_pos ht, reset_waits,
        (enabled_inUser he (by simp) (by simp)).2] at hr
      cases hr
  · rw [step_pc hs hx] at hp
    by_cases ha : a = .setTerminated
    · subst ha
      rcases h x c hp with hq | ⟨ht, hxs⟩
      · have hnext := setTerminated_joining hsched hq
        rw [show s.setTerminated = t from hperform] at hnext
        rcases hnext with hq | ⟨hc, hready⟩
        · exact .inl hq
        · refine .inr ⟨?_, hready⟩
          rw [← hperform, perform, setTerminated_terminated, hc, Function.update_self]
      · exact .inr ⟨step_marked hs ht, (step_ready hs (hxs.resolve_left hx)).symm.imp Eq.symm id⟩
    · rw [(step_terminated hs ha).1]
      rcases h x c hp with hq | ⟨ht, hxs⟩
      · left
        rw [step_hook hs hx ha]
        · exact hq
        · exact fun he => hw x he c hq
      · exact .inr ⟨ht, (step_ready hs (hxs.resolve_left hx)).symm.imp Eq.symm id⟩

theorem Joining.congr (h : Joining s) (hpc : t.pc = s.pc) (hhook : t.waitHook = s.waitHook)
    (ht : t.terminated = s.terminated) (ha : t.active = s.active) (hr : t.algo = s.algo) :
    Joining t := by
  intro x c hp
  rw [hpc] at hp
  rw [hhook, ht, ha, hr]
  exact h x c hp

/-- A context that is active has left the queue of the context it joins. -/
theorem Joining.terminated (h : Joining s) (hc : Consistent s) {c : CtxId}
    (hp : s.pc s.active = .joining c) : s.terminated c = true := by
  rcases h s.active c hp with hq | ⟨ht, -⟩
  · obtain ⟨d, hd, -⟩ := hc.active_timedOut _ hq
    rw [hp] at hd
    cases hd
  · exact ht

end Joining

end Scheduler

namespace Lifetime

open Transition
open Scheduler (CtxId TimePoint Launch Registry Registered Scheduled Reaped Joining mainCtx dispatcherCtx
  destroyedBy)

/-! ### Objects -/

/-- No two objects refer to one context. -/
structure Handles (s : State) : Prop where
  unique : ∀ o other c, s.impl o = some c → s.impl other = some c → o = other
  joinable_iff : ∀ c, s.sched.joinable c = true ↔ ∃ o, s.impl o = some c
  fresh : ∀ o, s.nobjs ≤ o → s.impl o = none

section Handles

variable {s t : State}

theorem Handles.congr (h : Handles s) (hi : t.impl = s.impl) (hn : t.nobjs = s.nobjs)
    (hj : t.sched.joinable = s.sched.joinable) : Handles t := by
  refine ⟨?_, ?_, ?_⟩
  · rw [hi]
    exact h.unique
  · rw [hi, hj]
    exact h.joinable_iff
  · rw [hi, hn]
    exact h.fresh

theorem Handles.object (h : Handles s) : Handles (s.object none) := by
  have himpl : (s.object none).impl = s.impl := by
    funext o
    by_cases ho : o = s.nobjs
    · rw [ho, h.fresh _ (Nat.le_refl _)]
      exact Function.update_self ..
    · exact Function.update_of_ne ho ..
  refine ⟨?_, ?_, fun o ho => ?_⟩
  · rw [himpl]
    exact h.unique
  · rw [himpl]
    exact h.joinable_iff
  · rw [himpl]
    exact h.fresh o (Nat.le_of_succ_le ho)

theorem swap_impl (s : State) (o other x : ObjId) :
    (s.swap o other).impl x = s.impl (Equiv.swap o other x) := by
  rw [Equiv.swap_apply_def, State.swap]
  dsimp only
  by_cases hx : x = other
  · rw [hx, Function.update_self]
    by_cases ho : other = o
    · rw [if_pos ho, ho]
    · rw [if_neg ho, if_pos rfl]
  · rw [Function.update_of_ne hx]
    by_cases ho : x = o
    · rw [ho, Function.update_self, if_pos rfl]
    · rw [Function.update_of_ne ho, if_neg ho, if_neg hx]

theorem Handles.swap (h : Handles s) {o other : ObjId} (ho : o < s.nobjs)
    (hother : other < s.nobjs) : Handles (s.swap o other) := by
  refine ⟨fun x y c hx hy => ?_, fun c => ?_, fun x hx => ?_⟩
  · rw [swap_impl] at hx hy
    exact (Equiv.swap o other).injective (h.unique _ _ c hx hy)
  · simp only [swap_impl]
    rw [← (Equiv.swap o other).surjective.exists (p := fun x => s.impl x = some c)]
    exact h.joinable_iff c
  · have hxo : x ≠ o := fun he => Nat.not_le.mpr ho (he ▸ hx)
    have hxother : x ≠ other := fun he => Nat.not_le.mpr hother (he ▸ hx)
    rw [swap_impl, Equiv.swap_apply_of_ne_of_ne hxo hxother]
    exact h.fresh x hx

end Handles

/-! ### Steps -/

structure Invariant (s : State) : Prop where
  sched : Scheduled s.sched
  reaped : Reaped s.sched.toRegistry s.reaped s.destroyed
  handles : Handles s
  joining : Joining s.sched
  dispatcher_pc : s.sched.pc dispatcherCtx = .running
  joined : ∀ p ∈ s.joined, s.sched.terminated p.2 = true

theorem Invariant.start : Invariant start := by
  refine ⟨.start, ⟨.nil, fun c => ?_, .nil, fun c => ?_⟩, ⟨?_, fun c => ?_, fun _ _ => rfl⟩, ?_, rfl, ?_⟩
  · constructor
    · exact fun hc => absurd hc List.not_mem_nil
    · exact fun hc => absurd hc.2.1 (Nat.not_lt.mpr hc.1)
  · constructor
    · exact fun hc => absurd hc List.not_mem_nil
    · exact fun hc => absurd hc.2.1 (Nat.not_lt.mpr hc.1)
  · intro o other c hc
    cases hc
  · constructor
    · intro hc
      cases hc
    · rintro ⟨o, hc⟩
      cases hc
  · intro x c hp
    cases hp
  · exact fun p hp => absurd hp List.not_mem_nil

section Steps

variable {s : State} {t : Scheduler.State} {a : Scheduler.Action}

theorem Invariant.objects (h : Invariant s) {t : State} (hsched : t.sched = s.sched)
    (hreaped : t.reaped = s.reaped) (hdestroyed : t.destroyed = s.destroyed)
    (hjoined : t.joined = s.joined) (ht : Handles t) : Invariant t := by
  refine ⟨hsched ▸ h.sched, ?_, ht, hsched ▸ h.joining, hsched ▸ h.dispatcher_pc, ?_⟩
  · rw [hsched, hreaped, hdestroyed]
    exact h.reaped
  · rw [hsched, hjoined]
    exact h.joined

theorem mayCall_registry (h : Scheduled s.sched) (hm : s.mayCall a = true)
    (hs : Scheduler.step s.sched a = some t) (ha : ∀ now, a ≠ .dispatch now) :
    t.ncreated = s.sched.ncreated ∧ t.workerQueue = s.sched.workerQueue ∧
      t.useCount = s.sched.useCount ∧ t.joinable = s.sched.joinable := by
  obtain ⟨he, rfl⟩ := Scheduler.step_perform hs
  suffices heq : (Scheduler.perform s.sched a).toRegistry = s.sched.toRegistry ∨
      a = .setTerminated by
    rcases heq with heq | rfl
    · rw [heq]
      exact ⟨rfl, rfl, rfl, rfl⟩
    · obtain ⟨hu, hmain⟩ := of_decide_eq_true he
      rw [Scheduler.perform, (h.toConsistent.setTerminated hu hmain).2]
      exact ⟨rfl, rfl, rfl, rfl⟩
  cases a with
  | create policy => cases hm
  | detach c => cases hm
  | yield =>
    left
    simp only [Scheduler.perform, Scheduler.State.yield, Scheduler.resumeNext_registry,
      Scheduler.require_registry]
  | suspend q =>
    left
    simp only [Scheduler.perform, Scheduler.State.suspend, Scheduler.resumeNext_registry,
      Scheduler.waitLink_registry]
  | waitUntil q sleepTp =>
    left
    cases q with
    | none =>
      simp only [Scheduler.perform, Scheduler.State.waitUntil, Scheduler.resumeNext_registry,
        Scheduler.State.sleepLink, Scheduler.require_registry]
    | some q =>
      simp only [Scheduler.perform, Scheduler.State.waitUntil, Scheduler.resumeNext_registry,
        Scheduler.State.sleepLink, Scheduler.require_registry, Scheduler.waitLink_registry]
  | wake c => exact .inl (Scheduler.wake_registry s.sched c)
  | join c => cases hm
  | setTerminated => exact .inr rfl
  | setAlgo kind => exact .inl (Scheduler.moveReady_registry _ _)
  | resumed now =>
    left
    rcases hp : s.sched.pc s.sched.active with _ | sleepTp | c <;>
      simp only [State.mayCall, hp, Bool.false_eq_true] at hm <;>
      simp only [Scheduler.perform, Scheduler.State.resumed, hp]
    split <;> rfl
  | dispatch now => exact absurd rfl (ha now)

theorem mayCall_wake (hm : s.mayCall a = true) (c : CtxId) (ha : a = .wake c) (d : CtxId) :
    s.sched.waitHook c ≠ some (.join d) := by
  rintro hq
  rw [ha, State.mayCall, hq] at hm
  cases hm

/-- A context that has terminated has terminated for good. -/
theorem step_joined (hs : Scheduler.step s.sched a = some t)
    (h : ∀ p ∈ s.joined, s.sched.terminated p.2 = true) : ∀ p ∈ s.joined, t.terminated p.2 = true :=
  fun p hp => Scheduler.step_marked hs (h p hp)

theorem Invariant.sched_step (h : Invariant s) (hm : s.mayCall a = true)
    (hs : Scheduler.step s.sched a = some t) : Invariant { s.reap a with sched := t } := by
  have ht := h.sched.step hs
  have hjoining := h.joining.step h.sched h.dispatcher_pc hs (mayCall_wake hm)
  have hd := (Scheduler.step_dispatcher_pc hs).trans h.dispatcher_pc
  have hjoined := step_joined hs h.joined
  by_cases ha : ∃ now, a = .dispatch now
  · obtain ⟨now, rfl⟩ := ha
    have hperform := (Scheduler.step_perform hs).2
    refine ⟨ht, ?_, h.handles.congr rfl rfl ?_, hjoining, hd, hjoined⟩
    · rw [← hperform]
      exact h.reaped.dispatch h.sched.registered now
    · rw [← hperform]
      exact (Scheduler.dispatch_agree s.sched now).joinable
  · have hreap : s.reap a = s := by
      cases a with
      | dispatch now => exact absurd ⟨now, rfl⟩ ha
      | _ => rfl
    obtain ⟨hn, hw, hu, hj⟩ := mayCall_registry h.sched hm hs fun now he => ha ⟨now, he⟩
    rw [hreap]
    exact ⟨ht, h.reaped.congr hn hw hu, h.handles.congr rfl rfl hj, hjoining, hd, hjoined⟩

theorem Invariant.create (h : Invariant s) {policy : Launch}
    (hs : Scheduler.step s.sched (.create policy) = some t) :
    Invariant { s.object (some s.sched.ncreated) with sched := t } := by
  have ht := h.sched.step hs
  have hjoining := h.joining.step h.sched h.dispatcher_pc hs fun c he => by cases he
  have hd := (Scheduler.step_dispatcher_pc hs).trans h.dispatcher_pc
  have hperform : s.sched.create policy = t := (Scheduler.step_perform hs).2
  have hjoined := step_joined hs h.joined
  have hnew : ∀ o, s.impl o ≠ some s.sched.ncreated := by
    intro o ho
    have hj := (h.handles.joinable_iff _).mpr ⟨o, ho⟩
    exact Nat.lt_irrefl _ (h.sched.registered.joinable_worker _ hj).2
  have hfresh := h.handles.fresh s.nobjs (Nat.le_refl _)
  refine ⟨ht, hperform ▸ h.reaped.create policy, ⟨?_, fun c => ?_, fun o ho => ?_⟩, hjoining, hd,
    hjoined⟩
  · intro o other c ho hother
    simp only [State.object, Function.update_apply] at ho hother
    by_cases hon : o = s.nobjs <;> by_cases hothern : other = s.nobjs
    · rw [hon, hothern]
    · rw [if_pos hon] at ho
      rw [if_neg hothern, ← ho] at hother
      exact absurd hother (hnew other)
    · rw [if_pos hothern] at hother
      rw [if_neg hon, ← hother] at ho
      exact absurd ho (hnew o)
    · rw [if_neg hon] at ho
      rw [if_neg hothern] at hother
      exact h.handles.unique o other c ho hother
  · rw [← hperform, Scheduler.create_registry]
    simp only [State.object, Function.update_apply]
    by_cases hc : c = s.sched.ncreated
    · simp only [hc, if_true, true_iff]
      exact ⟨s.nobjs, if_pos rfl⟩
    · rw [if_neg hc, h.handles.joinable_iff]
      constructor
      · rintro ⟨o, ho⟩
        refine ⟨o, ?_⟩
        rw [if_neg]
        · exact ho
        · rintro rfl
          rw [hfresh] at ho
          cases ho
      · rintro ⟨o, ho⟩
        by_cases hon : o = s.nobjs
        · rw [if_pos hon, Option.some.injEq] at ho
          exact absurd ho.symm hc
        · rw [if_neg hon] at ho
          exact ⟨o, ho⟩
  · have hne : o ≠ s.nobjs := Nat.ne_of_gt ho
    simp only [State.object, Function.update_of_ne hne]
    exact h.handles.fresh o (Nat.le_of_succ_le ho)

theorem Invariant.reset (h : Invariant s) (o : ObjId) : Invariant (s.reset o) := by
  rcases ho : s.impl o with _ | c
  · rw [State.reset, ho]
    exact h
  · have hj := (h.handles.joinable_iff c).mpr ⟨o, ho⟩
    have hjoinable : (s.sched.reset c).joinable = Function.update s.sched.joinable c false := by
      rw [Scheduler.State.reset, if_pos hj, Scheduler.release_registry]
    have himpl : ∀ x d, Function.update s.impl o none x = some d ↔ s.impl x = some d ∧ d ≠ c := by
      intro x d
      by_cases hx : x = o
      · rw [hx, Function.update_self, ho]
        simp only [reduceCtorEq, Option.some.injEq, ne_eq, false_iff, not_and, not_not]
        exact Eq.symm
      · rw [Function.update_of_ne hx]
        refine ⟨fun hd => ⟨hd, ?_⟩, And.left⟩
        rintro rfl
        exact hx (h.handles.unique x o d hd ho)
    rw [State.reset, ho]
    refine ⟨h.sched.reset, h.reaped.reset h.sched.registered hj, ⟨?_, fun d => ?_, fun x hx => ?_⟩, ?_,
      ?_, fun p hp => ?_⟩
    · intro x y d hx hy
      exact h.handles.unique x y d ((himpl x d).mp hx).1 ((himpl y d).mp hy).1
    · simp only [himpl, hjoinable]
      by_cases hd : d = c
      · simp only [hd, Function.update_self, Bool.false_eq_true, ne_eq, not_true_eq_false, and_false,
          exists_false]
      · simp only [Function.update_of_ne hd, h.handles.joinable_iff, ne_eq, hd, not_false_eq_true,
          and_true]
    · by_cases hxo : x = o
      · exact hxo ▸ Function.update_self ..
      · exact (Function.update_of_ne hxo ..).trans (h.handles.fresh x hx)
    · apply h.joining.congr
      · rw [Scheduler.reset_waits]
      · rw [Scheduler.reset_waits]
      · exact Scheduler.reset_terminated _ _
      · exact Scheduler.reset_active _ _
      · exact Scheduler.reset_algo _ _
    · rw [Scheduler.reset_waits]
      exact h.dispatcher_pc
    · rw [Scheduler.reset_terminated]
      exact h.joined p hp

theorem reset_sched (s : State) (o : ObjId) : (s.reset o).sched.active = s.sched.active ∧
    (s.reset o).sched.toWaits = s.sched.toWaits ∧ (s.reset o).sched.terminated = s.sched.terminated := by
  rcases ho : s.impl o with _ | c <;> rw [State.reset, ho]
  · exact ⟨rfl, rfl, rfl⟩
  · exact ⟨Scheduler.reset_active _ _, Scheduler.reset_waits _ _, Scheduler.reset_terminated _ _⟩

theorem Invariant.joinReturned (h : Invariant s) (o : ObjId) {c : CtxId}
    (hw : s.sched.waitHook s.sched.active = none) (hd : s.sched.active ≠ dispatcherCtx)
    (hc : s.sched.terminated c = true) : Invariant (s.joinReturned o c) := by
  obtain ⟨hactive, hwaits, hterm⟩ := reset_sched s o
  have hreset := h.reset o
  rw [State.joinReturned]
  refine ⟨hreset.sched.returned ?_, hreset.reaped, hreset.handles.congr rfl rfl rfl, ?_, ?_, ?_⟩
  · rw [hactive, hwaits]
    exact hw
  · intro x d hp
    by_cases hx : x = (s.reset o).sched.active
    · rw [hx] at hp
      simp only [Scheduler.State.returned, Function.update_self] at hp
      cases hp
    · simp only [Scheduler.State.returned, Function.update_of_ne hx] at hp
      exact hreset.joining x d hp
  · simp only [Scheduler.State.returned]
    rw [Function.update_of_ne (hactive ▸ hd.symm)]
    exact hreset.dispatcher_pc
  · intro p hp
    rcases List.mem_append.mp hp with hp | hp
    · exact hreset.joined p hp
    · rw [List.mem_singleton.mp hp]
      exact (congrFun hterm c).trans hc

theorem Invariant.join (h : Invariant s) (hu : s.sched.InUser) {o : ObjId} {c : CtxId}
    (ho : s.impl o = some c) (hc : c ≠ s.sched.active) (ht : ¬ s.sched.terminated c = true)
    (target : CtxId → ObjId) : Invariant { s with sched := s.sched.join c, target := target } := by
  have hj := (h.handles.joinable_iff c).mpr ⟨o, ho⟩
  have hs : Scheduler.step s.sched (.join c) = some (s.sched.join c) :=
    if_pos (decide_eq_true ⟨hu, hj, hc⟩)
  have hregistry : (s.sched.join c).toRegistry = s.sched.toRegistry := by
    rw [Scheduler.State.join, if_neg ht, Scheduler.resumeNext_registry]
    exact Scheduler.waitLink_registry _ _ _
  have hjoined := step_joined hs h.joined
  refine ⟨h.sched.step hs, hregistry ▸ h.reaped, h.handles.congr rfl rfl (hregistry ▸ rfl), ?_,
    (Scheduler.step_dispatcher_pc hs).trans h.dispatcher_pc, hjoined⟩
  exact h.joining.step h.sched h.dispatcher_pc hs fun x he => by cases he

theorem Invariant.waitUnlink (h : Invariant s) {c : CtxId}
    (hp : s.sched.pc s.sched.active = .joining c) :
    Invariant { s with sched := s.sched.waitUnlink s.sched.active } := by
  have ht := h.joining.terminated h.sched.toConsistent hp
  refine ⟨h.sched.waitUnlink, h.reaped, h.handles.congr rfl rfl rfl, ?_, h.dispatcher_pc, h.joined⟩
  intro x d hx
  by_cases hxa : x = s.sched.active
  · rw [hxa] at hx ⊢
    have hd : c = d := Scheduler.Pc.joining.inj (hp.symm.trans hx)
    exact .inr ⟨hd ▸ ht, .inl rfl⟩
  · rcases h.joining x d hx with hq | hready
    · exact .inl ((Function.update_of_ne hxa ..).trans hq)
    · exact .inr hready

theorem Invariant.step {t : State} {a : Action} (h : Invariant s) (hs : step s a = some t) :
    Invariant t := by
  cases a with
  | sched a =>
    simp only [Lifetime.step, Option.ite_none_right_eq_some] at hs
    obtain ⟨hm, hs⟩ := hs
    obtain ⟨u, hu, rfl⟩ := Option.map_eq_some_iff.mp hs
    exact h.sched_step hm hu
  | default =>
    simp only [Lifetime.step, Option.ite_none_right_eq_some, Option.some.injEq] at hs
    obtain ⟨-, rfl⟩ := hs
    exact h.objects rfl rfl rfl rfl h.handles.object
  | create policy =>
    obtain ⟨u, hu, rfl⟩ := Option.map_eq_some_iff.mp hs
    exact h.create hu
  | move other =>
    simp only [Lifetime.step, Option.ite_none_right_eq_some, Option.some.injEq] at hs
    obtain ⟨⟨-, hother⟩, rfl⟩ := hs
    have hmove : Handles (s.move other) :=
      h.handles.object.swap (Nat.lt_succ_self _) (Nat.lt_succ_of_lt hother)
    exact h.objects rfl rfl rfl rfl hmove
  | assign o other =>
    simp only [Lifetime.step, State.assign, Option.ite_none_right_eq_some,
      Option.ite_none_left_eq_some] at hs
    obtain ⟨⟨-, ho, hother⟩, -, hs⟩ := hs
    split at hs
    · cases hs
      exact h
    · cases hs
      exact h.objects rfl rfl rfl rfl (h.handles.swap ho hother)
  | swap o other =>
    simp only [Lifetime.step, Option.ite_none_right_eq_some, Option.some.injEq] at hs
    obtain ⟨⟨-, ho, hother⟩, rfl⟩ := hs
    exact h.objects rfl rfl rfl rfl (h.handles.swap ho hother)
  | detach o =>
    simp only [Lifetime.step, Option.ite_none_right_eq_some, Option.some.injEq] at hs
    obtain ⟨-, rfl⟩ := hs
    exact h.reset o
  | join o =>
    simp only [Lifetime.step, Option.ite_none_right_eq_some] at hs
    obtain ⟨⟨hu, -⟩, hs⟩ := hs
    rcases ho : s.impl o with _ | c <;> simp only [ho] at hs
    · cases hs
      exact h
    · by_cases hc : c = s.sched.active
      · rw [if_pos hc, Option.some.injEq] at hs
        exact hs ▸ h
      · rw [if_neg hc] at hs
        by_cases ht : s.sched.terminated c = true
        · rw [if_pos ht, Option.some.injEq] at hs
          exact hs ▸ h.joinReturned o (h.sched.not_linked hu.2) hu.1 ht
        · rw [if_neg ht, Option.some.injEq] at hs
          exact hs ▸ h.join hu ho hc ht _
  | joinResumed =>
    simp only [Lifetime.step] at hs
    rcases hp : s.sched.pc s.sched.active with _ | sleepTp | c <;>
      simp only [hp, reduceCtorEq, Option.ite_none_right_eq_some, Option.some.injEq] at hs
    obtain ⟨hd, rfl⟩ := hs
    have ht := h.joining.terminated h.sched.toConsistent hp
    exact (h.waitUnlink hp).joinReturned _ (Function.update_self ..) hd ht

theorem reachable_invariant (h : machine.Reachable s) : Invariant s :=
  Machine.Reachable.invariant Invariant.start (fun _ _ _ hi hs => hi.step hs) h

end Steps

/-! ### The account -/

/-- The worker contexts that have been constructed. -/
def State.constructed (s : State) : Finset CtxId := Finset.Ioo dispatcherCtx s.sched.ncreated

/-- What the reference counts amount to between two steps. -/
structure Accounted (s : State) : Prop where
  contexts_eq : s.sched.contexts = 2 + (s.constructed.filter fun c => c ∉ s.destroyed).card
  destroyed_once : s.destroyed.Nodup
  destroyed_iff : ∀ c, c ∈ s.destroyed ↔ c ∈ s.constructed ∧ c ∈ s.reaped ∧ ∀ o, s.impl o ≠ some c
  reaped_once : s.reaped.Nodup
  reaped : ∀ c ∈ s.reaped, c ∈ s.constructed ∧ s.sched.terminated c = true ∧
    c ∉ s.sched.terminatedQueue
  /-- nothing refers to a context that is destroyed -/
  unlinked : ∀ c ∈ s.destroyed, c ≠ s.sched.active ∧ c ∉ s.sched.algo.ready ∧
    c ∉ s.sched.sleepQueue ∧ c ∉ s.sched.workerQueue ∧ c ∉ s.sched.terminatedQueue ∧
    s.sched.waitHook c = none ∧ s.sched.waitQueue c = []
  joined : ∀ p ∈ s.joined, s.sched.terminated p.2 = true
  /-- a context in `join` is blocked until the context it joins has terminated -/
  joiner_blocked : ∀ x c, s.sched.pc x = .joining c → s.sched.terminated c = false →
    x ∈ s.sched.waitQueue c ∧ x ≠ s.sched.active ∧ x ∉ s.sched.algo.ready
  joiner_ready : ∀ x c, s.sched.pc x = .joining c → s.sched.terminated c = true →
    x = s.sched.active ∨ x ∈ s.sched.algo.ready
  contexts_two : s.sched.contexts ≤ 2 → ∀ c ∈ s.constructed, s.sched.terminated c = true

section Account

variable {s : State}

theorem mem_constructed {c : CtxId} :
    c ∈ s.constructed ↔ dispatcherCtx < c ∧ c < s.sched.ncreated :=
  Finset.mem_Ioo

theorem Invariant.workers_eq (h : Invariant s) :
    s.sched.workers = s.constructed.filter fun c => c ∉ s.destroyed := by
  ext c
  rw [Registry.mem_workers, Finset.mem_filter, mem_constructed, h.reaped.destroyed_iff]
  constructor
  · rintro ⟨hlt, hd, hu⟩
    exact ⟨⟨hd, hlt⟩, fun hz => hu hz.2.2⟩
  · rintro ⟨⟨hd, hlt⟩, hz⟩
    exact ⟨hlt, hd, fun hu => hz ⟨hd, hlt, hu⟩⟩

/-- The scheduler lets go of a worker only behind its end. -/
theorem Invariant.reaped_terminated (h : Invariant s) {c : CtxId} (hc : c ∈ s.reaped) :
    c ∈ s.constructed ∧ s.sched.terminated c = true ∧ c ∉ s.sched.terminatedQueue := by
  obtain ⟨hd, hlt, hw⟩ := (h.reaped.reaped_iff c).mp hc
  have hr := h.sched.registered
  refine ⟨mem_constructed.mpr ⟨hd, hlt⟩, ?_, fun hq => hw (hr.terminated_mem c hq).2⟩
  by_contra ht
  exact hw (hr.unreleased c hd ⟨hlt, Bool.not_eq_true _ ▸ ht⟩)

/-- The last reference is gone when the scheduler's and that of the objects are. -/
theorem Invariant.destroyed_iff (h : Invariant s) (c : CtxId) :
    c ∈ s.destroyed ↔ c ∈ s.constructed ∧ c ∈ s.reaped ∧ ∀ o, s.impl o ≠ some c := by
  rw [h.reaped.destroyed_iff, h.reaped.reaped_iff, mem_constructed]
  have hjoinable := h.handles.joinable_iff c
  constructor
  · rintro ⟨hd, hlt, hz⟩
    rw [h.sched.registered.counted c hd hlt, Nat.add_eq_zero_iff] at hz
    have hw : c ∉ s.sched.workerQueue := fun hm => by
      rw [if_pos hm] at hz
      exact absurd hz.2 Nat.one_ne_zero
    refine ⟨⟨hd, hlt⟩, ⟨hd, hlt, hw⟩, fun o ho => ?_⟩
    rw [hjoinable.mpr ⟨o, ho⟩] at hz
    exact absurd hz.1 Nat.one_ne_zero
  · rintro ⟨⟨hd, hlt⟩, ⟨-, -, hw⟩, hnone⟩
    refine ⟨hd, hlt, ?_⟩
    have hj : s.sched.joinable c = false := by
      rw [← Bool.not_eq_true, hjoinable]
      rintro ⟨o, ho⟩
      exact hnone o ho
    rw [h.sched.registered.counted c hd hlt, if_neg hw, hj]
    rfl

theorem Invariant.joiner_blocked (h : Invariant s) {x c : CtxId}
    (hp : s.sched.pc x = .joining c) (ht : s.sched.terminated c = false) :
    x ∈ s.sched.waitQueue c ∧ x ≠ s.sched.active ∧ x ∉ s.sched.algo.ready := by
  have hsched := h.sched.toConsistent
  rcases h.joining x c hp with hq | ⟨ht', -⟩
  · refine ⟨(hsched.queue_hook x c).mpr hq, ?_, fun hr => ?_⟩
    · rintro rfl
      rw [h.joining.terminated hsched hp] at ht
      cases ht
    · obtain ⟨d, hd, -⟩ := hsched.hook_timedOut x _ hq hr
      rw [hp] at hd
      cases hd
  · rw [ht] at ht'
    cases ht'

theorem Invariant.joiner_ready (h : Invariant s) {x c : CtxId}
    (hp : s.sched.pc x = .joining c) (ht : s.sched.terminated c = true) :
    x = s.sched.active ∨ x ∈ s.sched.algo.ready := by
  rcases h.joining x c hp with hq | ⟨-, hready⟩
  · have hlive := h.sched.joined_live x c hq
    rw [hlive.2] at ht
    cases ht
  · exact hready

theorem Invariant.unlinked (h : Invariant s) {c : CtxId} (hc : c ∈ s.destroyed) :
    c ≠ s.sched.active ∧ c ∉ s.sched.algo.ready ∧ c ∉ s.sched.sleepQueue ∧
      c ∉ s.sched.workerQueue ∧ c ∉ s.sched.terminatedQueue ∧ s.sched.waitHook c = none ∧
      s.sched.waitQueue c = [] := by
  obtain ⟨-, hreaped, -⟩ := (h.destroyed_iff c).mp hc
  obtain ⟨-, ht, hq⟩ := h.reaped_terminated hreaped
  obtain ⟨hjoiners, hready, hsleep, hhook⟩ := h.sched.toConsistent.unlinked ht
  refine ⟨?_, hready, hsleep, ((h.reaped.reaped_iff c).mp hreaped).2.2, hq, hhook, hjoiners⟩
  rintro rfl
  rw [h.sched.active_live.2] at ht
  cases ht

theorem reachable_accounted (h : machine.Reachable s) : Accounted s := by
  have hi := reachable_invariant h
  refine ⟨?_, hi.reaped.destroyed_nodup, hi.destroyed_iff, hi.reaped.reaped_nodup, ?_, ?_, hi.joined,
    ?_, ?_, ?_⟩
  · rw [hi.sched.registered.contexts_eq, hi.workers_eq]
  · exact fun c hc => hi.reaped_terminated hc
  · exact fun c hc => hi.unlinked hc
  · exact fun x c hp ht => hi.joiner_blocked hp ht
  · exact fun x c hp ht => hi.joiner_ready hp ht
  · intro hle c hc
    obtain ⟨hd, hlt⟩ := mem_constructed.mp hc
    exact hi.sched.registered.terminated_of_contexts hle hd hlt

end Account

end Lifetime

end Dumbo.Fiber
