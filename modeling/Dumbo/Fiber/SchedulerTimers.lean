import Dumbo.Fiber.SchedulerSteps
import Dumbo.Lib.TimerQueue

/-!
# The order in which timed waits are woken

The sleep queue is a queue by deadlines: `wait_until` inserts the active context, whatever readies a
context takes it out, and a round of the dispatcher takes those that are due. When a context has gone to
sleep is counted beside the scheduler.
-/

namespace Dumbo.Fiber.Scheduler

open Transition TimerQueue

/-! ### What an operation does to the sleep queue -/

/-- The sleep queue of `t` is that of `s` without the contexts that have been readied. -/
structure Woken (s t : State) : Prop where
  sub : t.sleepQueue.Sublist s.sleepQueue
  tp : t.tp = s.tp
  kept : ∀ c ∈ s.sleepQueue, c ∈ t.sleepQueue ∨ c ∈ t.algo.ready

section Operations

variable (s : State) (c : CtxId)

theorem require_sleepQueue (p : Prop) [Decidable p] : (s.require p).sleepQueue = s.sleepQueue := by
  unfold State.require
  split <;> rfl

theorem require_tp (p : Prop) [Decidable p] : (s.require p).tp = s.tp := by
  unfold State.require
  split <;> rfl

theorem Woken.congr {s s' t : State} (h : Woken s' t) (hq : s'.sleepQueue = s.sleepQueue)
    (htp : s'.tp = s.tp) : Woken s t :=
  ⟨hq ▸ h.sub, h.tp.trans htp, hq ▸ h.kept⟩

theorem Woken.refl : Woken s s := ⟨.refl _, rfl, fun _ hc => .inl hc⟩

theorem Woken.trans {s t u : State} (h : Woken s t) (h' : Woken t u)
    (hready : ∀ c ∈ t.algo.ready, c ∈ u.algo.ready) : Woken s u := by
  refine ⟨h'.sub.trans h.sub, h'.tp.trans h.tp, fun c hc => ?_⟩
  rcases h.kept c hc with hc | hc
  · exact h'.kept c hc
  · exact .inr (hready c hc)

theorem setReady_woken : Woken s (s.setReady c) := by
  have hq : (s.setReady c).sleepQueue = s.sleepQueue.erase c := by
    simp only [State.setReady, State.awakened, require_sleepQueue]
  refine ⟨?_, ?_, fun x hx => ?_⟩
  · rw [hq]
    exact List.erase_sublist
  · simp only [State.setReady, State.awakened, require_tp]
  · rw [hq, mem_setReady]
    by_cases he : x = c
    · exact .inr (.inl he)
    · exact .inl ((List.mem_erase_of_ne he).mpr hx)

theorem resume_woken (r : Option CtxId) : Woken s (s.resume c r) := by
  cases r with
  | none => exact (Woken.refl _).congr rfl rfl
  | some x => exact (setReady_woken { s with active := c } x).congr rfl rfl

theorem wake_woken : Woken s (s.wake c) := by
  apply (setReady_woken ((s.require (c ≠ s.active)).waitUnlink c) c).congr
  · exact require_sleepQueue s _
  · exact require_tp s _

theorem notifyJoiners_woken (l : List CtxId) : Woken s (s.notifyJoiners l) := by
  induction l generalizing s with
  | nil => exact .refl s
  | cons d rest ih => exact (wake_woken s d).trans (ih _) fun x hx => mem_notifyJoiners _ rest hx

theorem waitLink_woken (q : QueueId) : Woken s (s.waitLink c q) := by
  cases q with
  | primitive q => exact (Woken.refl _).congr (require_sleepQueue s _) (require_tp s _)
  | join d => exact (Woken.refl _).congr (require_sleepQueue s _) (require_tp s _)

theorem release_sleepQueue : (s.release c).sleepQueue = s.sleepQueue := by
  simp only [State.release]
  split
  · exact require_sleepQueue _ _
  · rfl

theorem release_tp : (s.release c).tp = s.tp := by
  simp only [State.release]
  split
  · exact require_tp _ _
  · rfl

theorem release_woken : Woken s (s.release c) :=
  (Woken.refl _).congr (release_sleepQueue s c) (release_tp s c)

theorem reset_woken : Woken s (s.reset c) := by
  unfold State.reset
  split
  · exact (release_woken _ c).congr rfl rfl
  · exact .refl s

theorem releaseTerminated_sleepQueue (l : List CtxId) :
    (s.releaseTerminated l).sleepQueue = s.sleepQueue := by
  induction l generalizing s with
  | nil => rfl
  | cons d rest ih =>
    rw [State.releaseTerminated, ih, release_sleepQueue]
    exact require_sleepQueue s _

theorem releaseTerminated_tp (l : List CtxId) : (s.releaseTerminated l).tp = s.tp := by
  induction l generalizing s with
  | nil => rfl
  | cons d rest ih =>
    rw [State.releaseTerminated, ih, release_tp]
    exact require_tp s _

theorem moveReady_woken (l : List CtxId) : Woken s (s.moveReady l) := by
  induction l generalizing s with
  | nil => exact .refl s
  | cons d rest ih =>
    apply (ih (s.awakened d)).congr
    · exact require_sleepQueue s _
    · exact require_tp s _

theorem resumeNext_woken (r : Option CtxId) : Woken s (s.resumeNext r) := by
  unfold State.resumeNext
  split
  · exact (Woken.refl _).congr rfl rfl
  · split
    · exact (Woken.refl _).congr rfl rfl
    · exact (resume_woken _ _ r).congr rfl rfl

variable {s} {t u : State}

theorem Woken.resumeNext (h : Woken s u) (r : Option CtxId) :
    (u.resumeNext r).sleepQueue.Sublist s.sleepQueue ∧ (u.resumeNext r).tp = s.tp ∧
      ∀ c ∈ s.sleepQueue, c ∈ (u.resumeNext r).sleepQueue ∨ c ∈ (u.resumeNext r).algo.ready ∨
        (u.resumeNext r).active = c := by
  have hn := resumeNext_woken u r
  refine ⟨hn.sub.trans h.sub, hn.tp.trans h.tp, fun c hc => ?_⟩
  rcases h.kept c hc with hc | hc
  · rcases hn.kept c hc with hc | hc
    · exact .inl hc
    · exact .inr (.inl hc)
  · exact .inr (mem_resumeNext u r hc)

end Operations

/-! ### A step that puts no context to sleep -/

/-- The contexts that leave the sleep queue are ready, or resumed. -/
structure Awake (s t : State) : Prop where
  sub : t.sleepQueue.Sublist s.sleepQueue
  tp : ∀ c ∈ t.sleepQueue, t.tp c = s.tp c
  kept : ∀ c ∈ s.sleepQueue, c ∈ t.sleepQueue ∨ c ∈ t.algo.ready ∨ t.active = c

section Steps

variable {s t u : State} {a : Action}

theorem Woken.awake (h : Woken s t) : Awake s t := by
  refine ⟨h.sub, fun c _ => congrFun h.tp c, fun c hc => ?_⟩
  rcases h.kept c hc with hc | hc
  · exact .inl hc
  · exact .inr (.inl hc)

theorem Woken.awake_resumeNext (h : Woken s u) (r : Option CtxId) : Awake s (u.resumeNext r) := by
  obtain ⟨hsub, htp, hkept⟩ := h.resumeNext r
  exact ⟨hsub, fun c _ => congrFun htp c, hkept⟩

/-- The contexts that are due are readied in their order. -/
theorem sleep2ready_queues (now : TimePoint) {l : List CtxId} (hl : s.sleepQueue = l)
    (hn : l.Nodup) :
    (s.sleep2ready now l).algo.ready = s.algo.ready ++ due s.tp now l ∧
      (s.sleep2ready now l).sleepQueue = later s.tp now l ∧
      ∀ c ∈ later s.tp now l, (s.sleep2ready now l).tp c = s.tp c := by
  induction l generalizing s with
  | nil =>
    refine ⟨?_, hl, fun c hc => absurd hc List.not_mem_nil⟩
    exact (List.append_nil _).symm
  | cons c rest ih =>
    rw [List.nodup_cons] at hn
    simp only [State.sleep2ready, require_tp]
    by_cases hc : s.tp c ≤ now
    · have htp : ∀ x ∈ rest, Function.update s.tp c timeMax x = s.tp x := by
        intro x hx
        have hne : x ≠ c := fun he => hn.1 (he ▸ hx)
        exact Function.update_of_ne hne _ _
      obtain ⟨hdue, hlater⟩ := pass_congr now htp
      rw [if_pos hc, due_cons hc, later_cons hc]
      generalize hu : State.awakened _ c = u
      have hqueue : u.sleepQueue = rest := by
        rw [← hu]
        exact require_sleepQueue _ _
      have hupdate : u.tp = Function.update s.tp c timeMax := by
        rw [← hu]
        exact require_tp _ _
      have hready : u.algo.ready = s.algo.ready ++ [c] := by
        rw [← hu]
        simp only [State.awakened, Algo.awakened, require_algo]
      obtain ⟨hready', hqueue', htp'⟩ := ih hqueue hn.2
      rw [hupdate, hdue] at hready'
      rw [hupdate, hlater] at hqueue' htp'
      refine ⟨?_, hqueue', fun x hx => ?_⟩
      · rw [hready', hready, List.append_assoc, List.singleton_append]
      · rw [htp' x hx]
        exact htp x (List.dropWhile_subset _ hx)
    · rw [if_neg hc, require_algo, require_sleepQueue, require_tp, due_cons_of_not hc,
        later_cons_of_not hc, List.append_nil]
      exact ⟨rfl, hl, fun _ _ => rfl⟩

theorem create_woken (policy : Launch) : Woken s (s.create policy) := by
  cases policy with
  | post =>
    apply Woken.congr (setReady_woken _ _)
    · exact require_sleepQueue s _
    · exact require_tp s _
  | dispatch =>
    simp only [State.create]
    apply Woken.congr (resume_woken _ _ _)
    · exact require_sleepQueue s _
    · exact require_tp s _

theorem resumed_woken (now : TimePoint) : Woken s (s.resumed now) := by
  rcases hp : s.pc s.active with _ | sleepTp | d <;> simp only [State.resumed, hp]
  · exact (Woken.refl _).congr rfl rfl
  · by_cases hlt : now < sleepTp
    · simp only [hlt, if_true]
      exact (Woken.refl _).congr rfl rfl
    · simp only [hlt, if_false]
      exact (Woken.refl _).congr rfl rfl
  · have hreset := reset_woken ({ s with clock := now : State }.waitUnlink s.active) d
    exact ⟨hreset.sub, hreset.tp, hreset.kept⟩

/-- What a round of the dispatcher finds behind `release_terminated_`. -/
def State.beforePass (s : State) (now : TimePoint) : State :=
  { s with clock := now }.releaseTerminated s.terminatedQueue

theorem beforePass_sleepQueue (s : State) (now : TimePoint) :
    (s.beforePass now).sleepQueue = s.sleepQueue :=
  releaseTerminated_sleepQueue _ _

theorem beforePass_tp (s : State) (now : TimePoint) : (s.beforePass now).tp = s.tp :=
  releaseTerminated_tp _ _

theorem beforePass_algo (s : State) (now : TimePoint) : (s.beforePass now).algo = s.algo :=
  releaseTerminated_algo _ _

/-- One pass of `sleep2ready_`. -/
def State.pass (s : State) (now : TimePoint) : State :=
  (s.beforePass now).sleep2ready now (s.beforePass now).sleepQueue

theorem pass_queues (hn : s.sleepQueue.Nodup) (now : TimePoint) :
    (s.pass now).algo.ready = s.algo.ready ++ due s.tp now s.sleepQueue ∧
      (s.pass now).sleepQueue = later s.tp now s.sleepQueue ∧
      ∀ c ∈ later s.tp now s.sleepQueue, (s.pass now).tp c = s.tp c := by
  have hqueues := sleep2ready_queues now (beforePass_sleepQueue s now) hn
  rw [beforePass_tp, beforePass_algo] at hqueues
  rw [State.pass, beforePass_sleepQueue]
  exact hqueues

theorem dispatch_awake (hn : s.sleepQueue.Nodup) (now : TimePoint) : Awake s (s.dispatch now) := by
  obtain ⟨hready, hqueue, htp⟩ := pass_queues hn now
  have hsub : (s.pass now).sleepQueue.Sublist s.sleepQueue := by
    rw [hqueue]
    exact List.dropWhile_sublist _
  have hkept : ∀ c ∈ s.sleepQueue, c ∈ (s.pass now).sleepQueue ∨ c ∈ (s.pass now).algo.ready := by
    intro c hc
    rw [← due_append_later s.tp now s.sleepQueue, List.mem_append] at hc
    rw [hqueue, hready, List.mem_append]
    rcases hc with hc | hc
    · exact .inr (.inr hc)
    · exact .inl hc
  rw [← hqueue] at htp
  have hpass : State.sleep2ready ({ s with clock := now : State }.releaseTerminated s.terminatedQueue)
      now ({ s with clock := now : State }.releaseTerminated s.terminatedQueue).sleepQueue =
        s.pass now := rfl
  simp only [State.dispatch]
  rw [hpass]
  generalize s.pass now = u at hsub htp hkept ⊢
  rcases hr : u.algo.ready with _ | ⟨x, rest⟩ <;> simp only [Algo.pickNext, hr]
  · refine ⟨hsub, htp, fun c hc => ?_⟩
    rcases hkept c hc with hc | hc
    · exact .inl hc
    · exact .inr (.inl hc)
  · have hresume := resume_woken { u with algo := ⟨u.algo.kind, rest⟩ } x (some dispatcherCtx)
    refine ⟨hresume.sub.trans hsub, fun c hc => ?_, fun c hc => ?_⟩
    · rw [hresume.tp]
      exact htp c (hresume.sub.subset hc)
    · rcases hkept c hc with hc | hc
      · rcases hresume.kept c hc with hc | hc
        · exact .inl hc
        · exact .inr (.inl hc)
      · rw [hr, List.mem_cons] at hc
        rcases hc with rfl | hc
        · exact .inr (.inr (resume_active _ _ _))
        · exact .inr (.inl (mem_resume _ x _ hc))

/-- Nobody but the active context goes to sleep. -/
theorem step_awake (hn : s.sleepQueue.Nodup) (ha : ∀ q sleepTp, a ≠ .waitUntil q sleepTp)
    (hs : step s a = some t) : Awake s t := by
  obtain ⟨-, rfl⟩ := step_perform hs
  cases a with
  | create policy => exact (create_woken policy).awake
  | detach c => exact (reset_woken s c).awake
  | yield =>
    apply Woken.awake_resumeNext
    exact (Woken.refl (s.require _)).congr (require_sleepQueue s _) (require_tp s _)
  | suspend q => exact (waitLink_woken s s.active (.primitive q)).awake_resumeNext none
  | waitUntil q sleepTp => exact absurd rfl (ha q sleepTp)
  | wake c => exact (wake_woken s c).awake
  | join c =>
    by_cases ht : s.terminated c = true
    · simp only [perform, State.join, ht, if_true]
      exact (reset_woken s c).awake
    · simp only [perform, State.join, ht, Bool.false_eq_true, if_false]
      apply Woken.awake_resumeNext
      have hlink := waitLink_woken s s.active (.join c)
      exact ⟨hlink.sub, hlink.tp, hlink.kept⟩
  | setTerminated =>
    apply Woken.awake_resumeNext
    have hnotify := notifyJoiners_woken
      { s with terminated := Function.update s.terminated s.active true } (s.waitQueue s.active)
    refine ⟨?_, ?_, fun c hc => ?_⟩
    · dsimp only
      rw [require_sleepQueue]
      exact hnotify.sub
    · dsimp only
      rw [require_tp]
      exact hnotify.tp
    · dsimp only
      rw [require_sleepQueue, require_algo]
      exact hnotify.kept c hc
  | setAlgo kind =>
    apply Woken.awake
    exact (moveReady_woken { s with algo := ⟨kind, []⟩ } s.algo.ready).congr rfl rfl
  | resumed now => exact (resumed_woken now).awake
  | dispatch now => exact dispatch_awake hn now

theorem waitUntil_awake (s : State) (q : Option Nat) (sleepTp : TimePoint) :
    Awake (s.sleepLink s.active sleepTp) (s.waitUntil q sleepTp) := by
  cases q with
  | none =>
    apply Woken.awake_resumeNext
    apply (Woken.refl _).congr
    · simp only [State.sleepLink, require_sleepQueue, require_tp, require_active]
    · simp only [State.sleepLink, require_tp, require_active]
  | some q =>
    have hactive : (s.waitLink s.active (.primitive q)).active = s.active := require_active s _
    have hqueue : (s.waitLink s.active (.primitive q)).sleepQueue = s.sleepQueue :=
      require_sleepQueue s _
    have htp : (s.waitLink s.active (.primitive q)).tp = s.tp := require_tp s _
    apply Woken.awake_resumeNext
    apply (Woken.refl _).congr
    · simp only [State.sleepLink, require_sleepQueue, require_tp, require_active, hactive, hqueue, htp]
    · simp only [State.sleepLink, require_tp, require_active, hactive, htp]

end Steps

/-! ### Runs -/

/-- The scheduler, with the number of the call of `wait_until` in which each context has slept last. -/
structure TimerState where
  sched : State
  slept : CtxId → Nat
  calls : Nat

inductive TimerAction
  | sched (a : Action)
  /-- a context that sleeps in no primitive's queue is readied -/
  | setReady (c : CtxId)
  deriving DecidableEq, Repr

def TimerState.count (s : TimerState) : Action → TimerState
  | .waitUntil _ _ => { s with
      slept := Function.update s.slept s.sched.active s.calls
      calls := s.calls + 1 }
  | _ => s

def timerStep (s : TimerState) : TimerAction → Option TimerState
  | .sched a => (step s.sched a).map fun t => { s.count a with sched := t }
  | .setReady c =>
    if s.sched.InUser ∧ c ∈ s.sched.sleepQueue ∧ s.sched.waitHook c = none then
      some { s with sched := s.sched.setReady c }
    else none

def timers : Machine TimerState TimerAction := ⟨⟨start, fun _ => 0, 0⟩, timerStep⟩

/-- One pass at the time `now` moves a part of the sleep queue to the end of the ready queue. -/
structure PassMoves (s : TimerState) (now : TimePoint) (moved kept : List CtxId) : Prop where
  ready : (s.sched.pass now).algo.ready = s.sched.algo.ready ++ moved
  sleepQueue : (s.sched.pass now).sleepQueue = kept
  parts : s.sched.sleepQueue = moved ++ kept
  due : ∀ c ∈ moved, s.sched.tp c ≤ now
  later : ∀ c ∈ kept, now < s.sched.tp c
  /-- by deadline, and those of one deadline in the order in which they went to sleep -/
  order : moved.Pairwise (Before s.sched.tp s.slept)

structure TimersOrdered (s : TimerState) : Prop where
  sorted : s.sched.sleepQueue.Pairwise (Before s.sched.tp s.slept)
  /-- the contexts in a timed wait that have not been woken -/
  mem_iff : ∀ c, c ∈ s.sched.sleepQueue ↔
    (∃ d, s.sched.pc c = .waitUntil d) ∧ c ≠ s.sched.active ∧ c ∉ s.sched.algo.ready
  deadline : ∀ c ∈ s.sched.sleepQueue, s.sched.pc c = .waitUntil (s.sched.tp c)
  not_ready : ∀ c ∈ s.sched.sleepQueue, c ∉ s.sched.algo.ready
  pass : ∀ now, ∃ moved kept, PassMoves s now moved kept

structure TimerInv (s : TimerState) : Prop where
  sched : Scheduled s.sched
  sorted : s.sched.sleepQueue.Pairwise (Before s.sched.tp s.slept)
  counted : ∀ c ∈ s.sched.sleepQueue, s.slept c < s.calls
  waits : ∀ c d, s.sched.pc c = .waitUntil d → c ≠ s.sched.active →
    c ∈ s.sched.algo.ready ∨ c ∈ s.sched.sleepQueue
  dispatcher_pc : s.sched.pc dispatcherCtx = .running

theorem TimerInv.start : TimerInv ⟨Scheduler.start, fun _ => 0, 0⟩ := by
  refine ⟨.start, .nil, fun c hc => absurd hc List.not_mem_nil, fun c d hp => ?_, rfl⟩
  cases hp

theorem TimerInv.ordered {s : TimerState} (h : TimerInv s) : TimersOrdered s := by
  have hsched := h.sched.toConsistent
  refine ⟨h.sorted, fun c => ⟨fun hc => ?_, ?_⟩, hsched.sleep_pc, hsched.sleep_not_ready, fun now => ?_⟩
  · refine ⟨⟨_, hsched.sleep_pc c hc⟩, ?_, hsched.sleep_not_ready c hc⟩
    rintro rfl
    exact hsched.active_not_sleeping hc
  · rintro ⟨⟨d, hp⟩, hactive, hready⟩
    exact (h.waits c d hp hactive).resolve_left hready
  · obtain ⟨hready, hqueue, -⟩ := pass_queues hsched.sleep_nodup now
    refine ⟨_, _, hready, hqueue, (due_append_later _ _ _).symm, ?_, ?_, ?_⟩
    · exact fun c hc => due_le hc
    · exact fun c hc => lt_later h.sorted hc
    · exact h.sorted.sublist (List.takeWhile_sublist _)

section TimerSteps

variable {s : TimerState} {t : State} {a : Action}

theorem TimerInv.waited (h : TimerInv s) (hs : step s.sched a = some t)
    (ha : ∀ q sleepTp, a ≠ .waitUntil q sleepTp) {c : CtxId} {d : TimePoint}
    (hp : t.pc c = .waitUntil d) (hc : c ≠ t.active) :
    s.sched.pc c = .waitUntil d ∧ c ≠ s.sched.active := by
  have hne : c ≠ s.sched.active := by
    rintro rfl
    rcases step_pc_active hs h.dispatcher_pc with hr | ⟨q, sleepTp, he, -⟩ | ⟨e, -, hj⟩
    · rw [hr] at hp
      cases hp
    · exact ha q sleepTp he
    · rw [hj] at hp
      cases hp
  exact ⟨step_pc hs hne ▸ hp, hne⟩

theorem TimerInv.awake (h : TimerInv s) (hawake : Awake s.sched t) (ht : Scheduled t)
    (hpc : ∀ c d, t.pc c = .waitUntil d → c ≠ t.active → s.sched.pc c = .waitUntil d ∧ c ≠ s.sched.active)
    (hready : ∀ c ∈ s.sched.algo.ready, c ∈ t.algo.ready ∨ t.active = c)
    (hd : t.pc dispatcherCtx = .running) : TimerInv { s with sched := t } := by
  refine ⟨ht, ?_, fun c hc => h.counted c (hawake.sub.subset hc), fun c d hp hc => ?_, hd⟩
  · apply pairwise_congr (h.sorted.sublist hawake.sub)
    · exact hawake.tp
    · exact fun _ _ => rfl
  · obtain ⟨hp', hc'⟩ := hpc c d hp hc
    rcases h.waits c d hp' hc' with hr | hs
    · rcases hready c hr with hr | he
      · exact .inl hr
      · exact absurd he.symm hc
    · rcases hawake.kept c hs with hs | hr | he
      · exact .inr hs
      · exact .inl hr
      · exact absurd he.symm hc

theorem TimerInv.sched_step (h : TimerInv s) (ha : ∀ q sleepTp, a ≠ .waitUntil q sleepTp)
    (hs : step s.sched a = some t) : TimerInv { s with sched := t } := by
  have ht := h.sched.step hs
  apply h.awake (step_awake h.sched.sleep_nodup ha hs) ht
  · exact fun c d hp hc => h.waited hs ha hp hc
  · exact fun c hc => step_ready hs hc
  · exact (step_dispatcher_pc hs).trans h.dispatcher_pc

theorem TimerInv.waitUntil (h : TimerInv s) {q : Option Nat} {sleepTp : TimePoint}
    (hs : step s.sched (.waitUntil q sleepTp) = some t) :
    TimerInv ⟨t, Function.update s.slept s.sched.active s.calls, s.calls + 1⟩ := by
  have hsched := h.sched.toConsistent
  have ht := h.sched.step hs
  have hactive := hsched.active_not_sleeping
  have hne : ∀ x ∈ s.sched.sleepQueue, x ≠ s.sched.active := fun x hx he => hactive (he ▸ hx)
  have hawake : Awake (s.sched.sleepLink s.sched.active sleepTp) t := by
    rw [← (step_perform hs).2]
    exact waitUntil_awake s.sched q sleepTp
  have hslept : ∀ x ∈ s.sched.sleepQueue,
      Function.update s.slept s.sched.active s.calls x = s.slept x :=
    fun x hx => Function.update_of_ne (hne x hx) _ _
  have htp : ∀ x ∈ s.sched.sleepQueue,
      Function.update s.sched.tp s.sched.active sleepTp x = s.sched.tp x :=
    fun x hx => Function.update_of_ne (hne x hx) _ _
  have hsorted := pairwise_orderedInsert (c := s.sched.active) (pairwise_congr h.sorted htp hslept)
    fun x hx => by
      rw [hslept x hx, Function.update_self]
      exact h.counted x hx
  refine ⟨ht, ?_, fun c hc => ?_, fun c d hp hc => ?_, ?_⟩
  · exact pairwise_congr (hsorted.sublist hawake.sub) hawake.tp fun _ _ => rfl
  · rcases (List.mem_orderedInsert _).mp (hawake.sub.subset hc) with rfl | hc
    · simp only [Function.update_self]
      exact Nat.lt_succ_self _
    · change Function.update s.slept s.sched.active s.calls c < _
      rw [hslept c hc]
      exact Nat.lt_succ_of_lt (h.counted c hc)
  · have hkept : c ∈ (s.sched.sleepLink s.sched.active sleepTp).sleepQueue →
        c ∈ t.algo.ready ∨ c ∈ t.sleepQueue := by
      intro hm
      rcases hawake.kept c hm with hm | hm | hm
      · exact .inr hm
      · exact .inl hm
      · exact absurd hm.symm hc
    by_cases he : c = s.sched.active
    · exact hkept ((List.mem_orderedInsert _).mpr (.inl he))
    · rcases h.waits c d (step_pc hs he ▸ hp) he with hr | hm
      · rcases step_ready hs hr with hr | hm
        · exact .inl hr
        · exact absurd hm.symm hc
      · exact hkept ((List.mem_orderedInsert _).mpr (.inr hm))
  · exact (step_dispatcher_pc hs).trans h.dispatcher_pc

theorem TimerInv.setReady (h : TimerInv s) {c : CtxId} (hc : c ∈ s.sched.sleepQueue)
    (hhook : s.sched.waitHook c = none) : TimerInv { s with sched := s.sched.setReady c } := by
  have hsched := h.sched.toConsistent
  have hne : c ≠ s.sched.active := fun he => hsched.active_not_sleeping (he ▸ hc)
  apply h.awake (setReady_woken s.sched c).awake
  · refine ⟨hsched.setReady (hsched.sleep_live c hc).1 hne fun q hq => ?_, ?_⟩
    · rw [hhook] at hq
      cases hq
    · rw [setReady_registry]
      exact h.sched.registered
  · intro x d hp hx
    rw [setReady_waits] at hp
    rw [setReady_active] at hx
    exact ⟨hp, hx⟩
  · exact fun x hx => .inl ((mem_setReady _).mpr (.inr hx))
  · rw [setReady_waits]
    exact h.dispatcher_pc

theorem TimerInv.step {s t : TimerState} {a : TimerAction} (h : TimerInv s)
    (hs : timerStep s a = some t) : TimerInv t := by
  cases a with
  | sched a =>
    obtain ⟨u, hu, rfl⟩ := Option.map_eq_some_iff.mp hs
    by_cases ha : ∃ q sleepTp, a = .waitUntil q sleepTp
    · obtain ⟨q, sleepTp, rfl⟩ := ha
      exact h.waitUntil hu
    · have hcount : s.count a = s := by
        cases a with
        | waitUntil q sleepTp => exact absurd ⟨q, sleepTp, rfl⟩ ha
        | _ => rfl
      rw [hcount]
      exact h.sched_step (fun q sleepTp he => ha ⟨q, sleepTp, he⟩) hu
  | setReady c =>
    simp only [timerStep, Option.ite_none_right_eq_some, Option.some.injEq] at hs
    obtain ⟨⟨-, hc, hhook⟩, rfl⟩ := hs
    exact h.setReady hc hhook

/-- In every run the sleep queue holds the contexts that wait with a deadline, in its order, and a pass
readies those that are due. -/
theorem timers_ordered {s : TimerState} (h : timers.Reachable s) : TimersOrdered s :=
  (h.invariant TimerInv.start fun _ _ _ hi hs => hi.step hs : TimerInv s).ordered

/-- The main context and the second worker wait for one deadline, the first worker for an earlier one. -/
theorem timers_ordered_equal_deadlines :
    ∃ s, timers.Reachable s ∧ s.sched.sleepQueue = [2, mainCtx, 3] ∧ TimersOrdered s := by
  obtain ⟨s, hs, hq⟩ : ∃ s, timers.exec timers.start [.sched (.create .post), .sched (.create .post),
      .sched (.waitUntil none 7), .sched (.dispatch 0), .sched (.waitUntil none 5),
      .sched (.waitUntil none 7)] = some s ∧ s.sched.sleepQueue = [2, mainCtx, 3] := ⟨_, rfl, rfl⟩
  exact ⟨s, Machine.reachable_of_exec hs, hq, timers_ordered (Machine.reachable_of_exec hs)⟩

end TimerSteps

end Dumbo.Fiber.Scheduler
