import Dumbo.Fiber.LifetimeAccounting

/-!
# The end of a thread's scheduler

`~scheduler`, which the main context runs when the thread ends: it joins the dispatcher, and the dispatcher goes
on with the fibers until it finds the worker queue empty. Then the main context checks the queues and destroys
the dispatcher and itself. A round of the dispatcher without a ready context goes into `suspend_until` of the
algorithm: that of `round_robin` waits for a notification or for the deadline, that of the reactor returns.
-/

namespace Dumbo.Fiber.Teardown

open Transition
open Scheduler (CtxId TimePoint mainCtx dispatcherCtx timeMax Scheduled Registered)

structure State where
  sched : Scheduler.State
  /-- `flag_` of `round_robin` -/
  flag : Bool
  /-- the thread is in `suspend_until`, with this deadline -/
  suspended : Option TimePoint
  /-- `shutdown_` -/
  shutdown : Bool
  /-- `~scheduler` and `~context` of the main context have returned -/
  destroyed : Bool

/-- `~context` -/
def destruct (s : Scheduler.State) (c : CtxId) : Scheduler.State :=
  let s := s.require (s.waitQueue c = [] ∧ c ∉ s.algo.ready ∧ c ∉ s.sleepQueue ∧ s.waitHook c = none)
  { s with contexts := s.contexts - 1 }

/-- The end of `dispatch` behind its loop, which switches to the main context. -/
def leaveDispatch (s : Scheduler.State) : Scheduler.State :=
  { s.releaseTerminated s.terminatedQueue with active := mainCtx }

/-- The rest of `~scheduler` once the main context is back in `join`, and of `~context_initializer`. -/
def finish (s : Scheduler.State) : Scheduler.State :=
  let s := s.waitUnlink mainCtx
  let s := s.require (s.workerQueue = [] ∧ s.terminatedQueue = [] ∧ s.sleepQueue = [])
  let s := s.require (dispatcherCtx ∉ s.algo.ready)
  destruct (s.release dispatcherCtx) mainCtx

namespace State

/-- Primitives wake the contexts that are linked in their own queues. A round of the dispatcher begins with the
test of `shutdown_` and of the worker queue. -/
def mayCall (s : State) : Scheduler.Action → Bool
  | .wake c => match s.sched.waitHook c with
    | some (.primitive _) => true
    | _ => false
  | .dispatch _ => !(s.shutdown && s.sched.workerQueue.isEmpty)
  | _ => true

/-- `algo_->notify()` -/
def notify (s : State) : State :=
  match s.sched.algo.kind with
  | .roundRobin => { s with flag := true }
  | .reactor => s

/-- `algo_->suspend_until`, up to the wait of the thread -/
def suspendUntil (s : State) (timePoint : TimePoint) : State :=
  match s.sched.algo.kind with
  | .roundRobin => if s.flag then { s with flag := false } else { s with suspended := some timePoint }
  | .reactor => s

/-- What the dispatcher does in a round beside the queues. It is active behind them if it has found no ready
context. -/
def round (s : State) (sched : Scheduler.State) : State :=
  let s := if s.shutdown then s.notify else s
  let s := { s with sched := sched }
  if sched.active = dispatcherCtx then
    s.suspendUntil (match sched.sleepQueue with
      | [] => timeMax
      | ctx :: _ => sched.tp ctx)
  else s

def after (s : State) (sched : Scheduler.State) : Scheduler.Action → State
  | .dispatch _ => s.round sched
  | .setAlgo _ => { s with sched := sched, flag := false }
  | _ => { s with sched := sched }

end State

inductive Action
  | sched (a : Scheduler.Action)
  /-- `~scheduler` up to the switch in `join` -/
  | destroy
  /-- the wait in `suspend_until` ends at its deadline; without one it does not -/
  | timeout (now : TimePoint)
  /-- the dispatcher finds no worker and leaves -/
  | leave
  deriving DecidableEq, Repr

def step (s : State) : Action → Option State
  | .sched a =>
    if s.mayCall a ∧ s.suspended = none ∧ s.destroyed = false then
      (Scheduler.step s.sched a).map fun sched => s.after sched a
    else none
  | .destroy =>
    if s.sched.InUser ∧ s.sched.active = mainCtx ∧ s.shutdown = false then
      some { s with sched := s.sched.join dispatcherCtx, shutdown := true }
    else none
  | .timeout now =>
    match s.suspended with
    | some timePoint =>
      if timePoint ≠ timeMax ∧ timePoint ≤ now ∧ s.sched.clock ≤ now then
        some { s with sched := { s.sched with clock := now }, flag := false, suspended := none }
      else none
    | none => none
  | .leave =>
    if s.shutdown ∧ s.suspended = none ∧ s.destroyed = false ∧ s.sched.active = dispatcherCtx ∧
        s.sched.workerQueue = [] then
      some { s.notify with sched := finish (leaveDispatch s.sched), destroyed := true }
    else none

def machine : Machine State Action := ⟨⟨Scheduler.start, false, none, false, false⟩, step⟩

/-! ### The invariant -/

/-- The workers that have terminated and are not yet released stand in the terminated queue, and the scheduler
alone refers to the dispatcher. -/
structure Kept (r : Scheduler.Registry) : Prop where
  queued : ∀ c ∈ r.workerQueue, r.terminated c = true → c ∈ r.terminatedQueue
  dispatcher : r.useCount dispatcherCtx = 1

/-- The main context waits for the dispatcher. -/
def Joins (s : Scheduler.State) : Prop :=
  s.pc mainCtx = .joining dispatcherCtx ∧ s.waitHook mainCtx = some (.join dispatcherCtx)

/-- What has become of the scheduler behind its destructor. -/
structure Destroyed (s : Scheduler.State) : Prop where
  fault : s.fault = none
  ready : s.algo.ready = []
  workers : s.workerQueue = [] ∧ s.terminatedQueue = [] ∧ s.sleepQueue = []
  terminated : ∀ c, dispatcherCtx < c → c < s.ncreated → s.terminated c = true
  /-- the contexts that are left are those that `fiber` objects refer to -/
  contexts : s.contexts = s.workers.card ∧ ∀ c, c ∈ s.workers ↔ s.joinable c = true

structure Inv (s : State) : Prop where
  sched : s.destroyed = false → Scheduled s.sched ∧ Kept s.sched.toRegistry ∧
    s.sched.pc dispatcherCtx = .running
  joins : s.destroyed = false → s.shutdown → Joins s.sched
  /-- only the dispatcher suspends the thread -/
  suspended : s.suspended ≠ none → s.sched.active = dispatcherCtx
  /-- a dispatcher that has been told to end does not -/
  notified : s.shutdown → s.suspended = none
  destroyed : s.destroyed → s.shutdown ∧ Destroyed s.sched

variable {s t : State}

/-! ### Suspension of the thread -/

theorem sleep2ready_kind (s : Scheduler.State) (now : TimePoint) (l : List CtxId) :
    (s.sleep2ready now l).algo.kind = s.algo.kind := by
  induction l generalizing s with
  | nil => rfl
  | cons c l ih =>
    simp only [Scheduler.State.sleep2ready]
    split
    · rw [ih]
      simp only [Scheduler.State.awakened, Scheduler.Algo.awakened, Scheduler.require_algo]
    · exact congrArg Scheduler.Algo.kind (Scheduler.require_algo s _)

theorem resume_kind (s : Scheduler.State) (c : CtxId) (r : Option CtxId) :
    (s.resume c r).algo.kind = s.algo.kind := by
  cases r with
  | none => rfl
  | some r =>
    simp only [Scheduler.State.resume, Scheduler.State.setReady, Scheduler.State.awakened,
      Scheduler.Algo.awakened, Scheduler.require_algo]

theorem dispatch_kind (s : Scheduler.State) (now : TimePoint) :
    (s.dispatch now).algo.kind = s.algo.kind := by
  have hqueues : ((({ s with clock := now }.releaseTerminated s.terminatedQueue).sleep2ready now
      ({ s with clock := now }.releaseTerminated s.terminatedQueue).sleepQueue)).algo.kind = s.algo.kind := by
    rw [sleep2ready_kind, Scheduler.releaseTerminated_algo]
  rw [Scheduler.State.dispatch]
  split
  · exact hqueues
  · rename_i ctx algo hpick
    rw [resume_kind]
    refine Eq.trans ?_ hqueues
    simp only [Scheduler.Algo.pickNext] at hpick
    split at hpick
    · cases hpick
    · cases hpick
      rfl

theorem notify_eq (s : State) : s.notify.sched = s.sched ∧ s.notify.suspended = s.suspended ∧
    s.notify.shutdown = s.shutdown ∧ s.notify.destroyed = s.destroyed := by
  rw [State.notify]
  split
  · exact ⟨rfl, rfl, rfl, rfl⟩
  · exact ⟨rfl, rfl, rfl, rfl⟩

theorem suspendUntil_eq (s : State) (timePoint : TimePoint) : (s.suspendUntil timePoint).sched = s.sched ∧
    (s.suspendUntil timePoint).shutdown = s.shutdown ∧ (s.suspendUntil timePoint).destroyed = s.destroyed := by
  rw [State.suspendUntil]
  split
  · split_ifs
    · exact ⟨rfl, rfl, rfl⟩
    · exact ⟨rfl, rfl, rfl⟩
  · exact ⟨rfl, rfl, rfl⟩

theorem round_eq (s : State) (u : Scheduler.State) : (s.round u).sched = u ∧
    (s.round u).shutdown = s.shutdown ∧ (s.round u).destroyed = s.destroyed := by
  have hnotify : ∀ v : State, v = (if s.shutdown then s.notify else s) →
      v.shutdown = s.shutdown ∧ v.destroyed = s.destroyed := by
    rintro v rfl
    split
    · exact (notify_eq s).2.2
    · exact ⟨rfl, rfl⟩
  rw [State.round]
  split
  · obtain ⟨hsched, hdown, hdestroyed⟩ := suspendUntil_eq
      { (if s.shutdown then s.notify else s) with sched := u } (match u.sleepQueue with
        | [] => timeMax
        | ctx :: _ => u.tp ctx)
    exact ⟨hsched, hdown.trans (hnotify _ rfl).1, hdestroyed.trans (hnotify _ rfl).2⟩
  · exact ⟨rfl, hnotify (if s.shutdown then s.notify else s) rfl⟩

theorem after_eq (s : State) (u : Scheduler.State) (a : Scheduler.Action) : (s.after u a).sched = u ∧
    (s.after u a).shutdown = s.shutdown ∧ (s.after u a).destroyed = s.destroyed := by
  cases a with
  | dispatch now => exact round_eq s u
  | _ => exact ⟨rfl, rfl, rfl⟩

theorem suspendUntil_notified (hflag : s.sched.algo.kind = .roundRobin → s.flag = true) (timePoint : TimePoint) :
    (s.suspendUntil timePoint).suspended = s.suspended := by
  rw [State.suspendUntil]
  split
  · rename_i hrobin
    rw [if_pos (hflag hrobin)]
  · rfl

theorem after_suspended {u : Scheduler.State} {a : Scheduler.Action} (hs : Scheduler.step s.sched a = some u)
    (hawake : s.suspended = none) (hnot : (s.after u a).suspended ≠ none) :
    u.active = dispatcherCtx ∧ s.shutdown = false := by
  cases a with
  | dispatch now =>
    obtain ⟨_, rfl⟩ := Scheduler.step_perform hs
    have hkind := dispatch_kind s.sched now
    change (s.round (s.sched.dispatch now)).suspended ≠ none at hnot
    rw [State.round] at hnot
    have hdown : ∀ v : State, v = (if s.shutdown then s.notify else s) → v.suspended = none := by
      rintro v rfl
      split
      · exact (notify_eq s).2.1.trans hawake
      · exact hawake
    split at hnot
    case isFalse => exact absurd (hdown _ rfl) hnot
    case isTrue hactive =>
      refine ⟨hactive, ?_⟩
      by_contra hshutdown
      apply hnot
      rw [if_pos (by simpa using hshutdown)] at *
      rw [suspendUntil_notified]
      · exact (notify_eq s).2.1.trans hawake
      · intro hrobin
        show s.notify.flag = true
        rw [State.notify, ← hkind, hrobin]
  | _ => exact absurd hawake hnot

/-- The main context cannot run before the dispatcher has left. -/
theorem Joins.not_active {s : Scheduler.State} (h : Joins s) (hs : Scheduled s) : s.active ≠ mainCtx := by
  intro hm
  obtain ⟨sleepTp, hpc, _⟩ := hs.active_timedOut _ (hm ▸ h.2)
  rw [hm, h.1] at hpc
  cases hpc

theorem Joins.step {s t : Scheduler.State} (h : Joins s) (hs : Scheduled s) {a : Scheduler.Action}
    (hstep : Scheduler.step s a = some t) (hw : a ≠ .wake mainCtx) : Joins t := by
  have hactive := h.not_active hs
  refine ⟨(Scheduler.step_pc hstep (Ne.symm hactive)).trans h.1, ?_⟩
  by_cases ha : a = .setTerminated
  · subst ha
    obtain ⟨he, hperform⟩ := Scheduler.step_perform hstep
    have hd := (of_decide_eq_true he).1.1
    rw [← hperform]
    rcases Scheduler.setTerminated_joining hs h.2 with hq | ⟨hc, _⟩
    · exact hq
    · exact absurd hc.symm hd
  · exact (Scheduler.step_hook hstep (Ne.symm hactive) ha hw).trans h.2

theorem Kept.reset {s : Scheduler.State} (h : Kept s.toRegistry) (hr : Registered s.toRegistry) (c : CtxId) :
    Kept (s.reset c).toRegistry := by
  by_cases hj : s.joinable c = true
  · have hc := (hr.joinable_worker c hj).1
    rw [Scheduler.State.reset, if_pos hj, Scheduler.release_registry]
    refine ⟨h.queued, ?_⟩
    simp only [Function.update_of_ne (Nat.ne_of_lt hc)]
    exact h.dispatcher
  · rw [Scheduler.State.reset, if_neg hj]
    exact h

theorem Kept.dispatch {s : Scheduler.State} (h : Kept s.toRegistry) (hr : Registered s.toRegistry)
    (now : TimePoint) : Kept (s.dispatch now).toRegistry := by
  rw [Scheduler.dispatch_registry]
  have hagree := Scheduler.releaseTerminated_agree { s with clock := now } s.terminatedQueue
  constructor
  · intro c hc ht
    rw [hagree.terminated] at ht
    rw [Scheduler.releaseTerminated_workerQueue, hr.worker_nodup.mem_sdiff_iff] at hc
    exact absurd (h.queued c hc.1 ht) hc.2
  · rw [Scheduler.releaseTerminated_useCount, h.dispatcher, List.count_eq_zero_of_not_mem]
    intro hd
    exact Nat.lt_irrefl _ (hr.worker_mem _ (hr.terminated_mem _ hd).2).1

theorem Kept.step {s t : Scheduler.State} (h : Kept s.toRegistry) (hs : Scheduled s) {a : Scheduler.Action}
    (hstep : Scheduler.step s a = some t) : Kept t.toRegistry := by
  obtain ⟨he, rfl⟩ := Scheduler.step_perform hstep
  have hr := hs.registered
  cases a with
  | create policy =>
    rw [Scheduler.perform, Scheduler.create_registry]
    constructor
    · intro c hc ht
      rcases List.mem_append.mp hc with hc | hc
      · exact h.queued c hc ht
      · rw [List.mem_singleton.mp hc] at ht
        exact absurd (hr.terminated_worker _ ht).2 (Nat.lt_irrefl _)
    · simp only [Function.update_of_ne (Nat.ne_of_lt hr.system)]
      exact h.dispatcher
  | detach c => exact h.reset hr c
  | yield =>
    simp only [Scheduler.perform, Scheduler.State.yield, Scheduler.resumeNext_registry,
      Scheduler.require_registry]
    exact h
  | suspend q =>
    simp only [Scheduler.perform, Scheduler.State.suspend, Scheduler.resumeNext_registry,
      Scheduler.waitLink_registry]
    exact h
  | waitUntil q sleepTp =>
    cases q with
    | none =>
      simp only [Scheduler.perform, Scheduler.State.waitUntil, Scheduler.resumeNext_registry,
        Scheduler.State.sleepLink, Scheduler.require_registry]
      exact h
    | some q =>
      simp only [Scheduler.perform, Scheduler.State.waitUntil, Scheduler.resumeNext_registry,
        Scheduler.State.sleepLink, Scheduler.require_registry, Scheduler.waitLink_registry]
      exact h
  | wake c =>
    rw [Scheduler.perform, Scheduler.wake_registry]
    exact h
  | join c =>
    rw [Scheduler.perform, Scheduler.State.join]
    split
    · exact h.reset hr c
    · simp only [Scheduler.resumeNext_registry, Scheduler.waitLink_registry]
      exact h
  | setTerminated =>
    obtain ⟨hu, hmain⟩ := of_decide_eq_true he
    rw [Scheduler.perform, (hs.toConsistent.setTerminated hu hmain).2]
    refine ⟨?_, h.dispatcher⟩
    intro c hc ht
    by_cases hca : c = s.active
    · exact List.mem_append_right _ (List.mem_singleton.mpr hca)
    · simp only [Function.update_of_ne hca] at ht
      exact List.mem_append_left _ (h.queued c hc ht)
  | setAlgo kind =>
    rw [Scheduler.perform, Scheduler.State.setAlgo, Scheduler.moveReady_registry]
    exact h
  | resumed now =>
    rw [Scheduler.perform, Scheduler.State.resumed]
    rcases s.pc s.active with _ | sleepTp | c
    · exact h
    · simp only
      split
      · exact h
      · exact h
    · exact Kept.reset (s := { s with clock := now }.waitUnlink s.active) h hr c
  | dispatch now => exact h.dispatch hr now

/-! ### The steps -/

theorem Joins.begin {s : Scheduler.State} (hs : Scheduled s) (hu : s.InUser) (hm : s.active = mainCtx) :
    Joins (s.join dispatcherCtx) := by
  have hlive : s.terminated dispatcherCtx = false := hs.dispatcher_live.2
  constructor
  · have hactive : (s.waitLink s.active (.join dispatcherCtx)).active = s.active :=
      Scheduler.require_active s _
    rw [← hm, Scheduler.State.join, if_neg (by simp [hlive])]
    simp only [Scheduler.resumeNext_waits, hactive, Function.update_self]
  · rw [← hm]
    exact Scheduler.join_hook hs.toConsistent hu (by simp [hlive])

theorem Joins.alone {s : Scheduler.State} (h : Joins s) (hs : Scheduled s)
    (hd : s.active = dispatcherCtx) (hempty : s.workerQueue = []) :
    s.algo.ready = [] ∧ s.sleepQueue = [] ∧ (∀ x q, s.waitHook x = some q → x = mainCtx) ∧
      ∀ c, dispatcherCtx < c → c < s.ncreated → s.terminated c = true := by
  have hworkers : ∀ c, dispatcherCtx < c → ¬ s.Live c := by
    intro c hc hl
    have hw := hs.registered.unreleased c hc hl
    rw [hempty] at hw
    exact absurd hw List.not_mem_nil
  have hsystem : ∀ c, s.Live c → c ≠ dispatcherCtx → c = mainCtx := by
    intro c hl hc
    rcases Nat.lt_trichotomy c dispatcherCtx with hlt | heq | hgt
    · exact Nat.lt_one_iff.mp hlt
    · exact absurd heq hc
    · exact absurd hl (hworkers c hgt)
  have hmain : ∀ sleepTp, s.pc mainCtx ≠ .waitUntil sleepTp := by
    intro sleepTp hp
    rw [h.1] at hp
    cases hp
  refine ⟨?_, ?_, ?_, ?_⟩
  · apply List.eq_nil_iff_forall_not_mem.mpr
    intro c hc
    have hcd : c ≠ dispatcherCtx := by
      rintro rfl
      exact hs.active_not_ready (hd ▸ hc)
    have hcm := hsystem c (hs.ready_live c hc) hcd
    subst hcm
    obtain ⟨sleepTp, hp, _⟩ := hs.hook_timedOut _ _ h.2 hc
    exact hmain sleepTp hp
  · apply List.eq_nil_iff_forall_not_mem.mpr
    intro c hc
    obtain ⟨hl, hcd⟩ := hs.sleep_live c hc
    have hcm := hsystem c hl hcd
    subst hcm
    exact hmain _ (hs.sleep_pc _ hc)
  · intro x q hq
    obtain ⟨hl, hxd⟩ := hs.hook_live x q hq
    exact hsystem x hl hxd
  · intro c hc hn
    by_contra ht
    exact hworkers c hc ⟨hn, Bool.not_eq_true _ ▸ ht⟩

theorem Joins.unlinked {s : Scheduler.State} (hs : Scheduled s)
    (hlinked : ∀ x q, s.waitHook x = some q → x = mainCtx) (c : CtxId) :
    (s.waitUnlink mainCtx).waitQueue c = [] ∧ (s.waitUnlink mainCtx).waitHook c = none := by
  constructor
  · apply List.eq_nil_iff_forall_not_mem.mpr
    intro x hx
    obtain ⟨hne, hx⟩ := ((hs.queue_nodup c).mem_erase_iff).mp hx
    exact hne (hlinked x _ ((hs.queue_hook x c).mp hx))
  · simp only [Scheduler.State.waitUnlink]
    by_cases hc : c = mainCtx
    · rw [hc, Function.update_self]
    · rw [Function.update_of_ne hc]
      cases hq : s.waitHook c with
      | none => rfl
      | some q => exact absurd (hlinked c q hq) hc

theorem finish_eq {s u : Scheduler.State} (hu : u = s.waitUnlink mainCtx)
    (hqueues : u.workerQueue = [] ∧ u.terminatedQueue = [] ∧ u.sleepQueue = []) (hready : u.algo.ready = [])
    (hunlinked : ∀ c, u.waitQueue c = [] ∧ u.waitHook c = none) (hcount : u.useCount dispatcherCtx = 1) :
    finish s = { u with
      useCount := Function.update u.useCount dispatcherCtx 0
      contexts := u.contexts - 1 - 1 } := by
  have hmem : ∀ c, c ∉ u.algo.ready ∧ c ∉ u.sleepQueue := by
    intro c
    rw [hready, hqueues.2.2]
    exact ⟨List.not_mem_nil, List.not_mem_nil⟩
  simp only [finish, ← hu]
  rw [Scheduler.State.require_pos hqueues, Scheduler.State.require_pos (hmem dispatcherCtx).1,
    Scheduler.release_eq, hcount]
  · simp only [destruct]
    rw [Scheduler.State.require_pos]
    · rfl
    · exact ⟨(hunlinked mainCtx).1, (hmem mainCtx).1, (hmem mainCtx).2, (hunlinked mainCtx).2⟩
  · intro _
    exact ⟨(hunlinked dispatcherCtx).1, (hmem dispatcherCtx).1, (hmem dispatcherCtx).2,
      (hunlinked dispatcherCtx).2⟩

theorem mem_workers_iff {r : Scheduler.Registry} (h : Registered r) (hempty : r.workerQueue = []) (c : CtxId) :
    c ∈ r.workers ↔ r.joinable c = true := by
  have hcount : dispatcherCtx < c → c < r.ncreated → r.useCount c = (r.joinable c).toNat := by
    intro hc hn
    have hcounted := h.counted c hc hn
    rw [hempty, if_neg List.not_mem_nil, Nat.add_zero] at hcounted
    exact hcounted
  rw [Scheduler.Registry.mem_workers]
  constructor
  · rintro ⟨hn, hc, hused⟩
    rw [hcount hc hn] at hused
    exact Bool.toNat_eq_one.mp (Nat.le_antisymm (Bool.toNat_le _) (Nat.pos_of_ne_zero hused))
  · intro hj
    obtain ⟨hc, hn⟩ := h.joinable_worker c hj
    refine ⟨hn, hc, ?_⟩
    rw [hcount hc hn, hj]
    exact Nat.one_ne_zero

theorem Destroyed.of_leave {s : Scheduler.State} (h : Joins s) (hs : Scheduled s) (hk : Kept s.toRegistry)
    (hd : s.active = dispatcherCtx) (hempty : s.workerQueue = []) :
    Destroyed (finish (leaveDispatch s)) := by
  obtain ⟨hready, hsleep, hlinked, hterminated⟩ := h.alone hs hd hempty
  have hnone : s.terminatedQueue = [] := by
    apply List.eq_nil_iff_forall_not_mem.mpr
    intro c hc
    have hw := (hs.registered.terminated_mem c hc).2
    rw [hempty] at hw
    exact absurd hw List.not_mem_nil
  have hleave : leaveDispatch s = { s with active := mainCtx } := by
    rw [leaveDispatch, hnone, Scheduler.State.releaseTerminated, ← hnone]
  have hworkers : ({ s.toRegistry with
      useCount := Function.update s.useCount dispatcherCtx 0, contexts := s.contexts - 1 - 1 } :
      Scheduler.Registry).workers = s.workers := by
    ext c
    rw [Scheduler.Registry.mem_workers, Scheduler.Registry.mem_workers]
    by_cases hc : c = dispatcherCtx
    · subst hc
      simp
    · simp only [Function.update_of_ne hc]
  have hunlinked := Joins.unlinked hs hlinked
  rw [hleave, finish_eq (s := { s with active := mainCtx }) rfl ⟨hempty, hnone, hsleep⟩ hready
    (fun c => hunlinked c) hk.dispatcher]
  refine ⟨hs.fault_none, hready, ⟨hempty, hnone, hsleep⟩, hterminated, ?_, ?_⟩
  · have hcontexts : s.contexts - 1 - 1 = s.workers.card := by
      rw [hs.registered.contexts_eq]
      omega
    exact hcontexts.trans (congrArg Finset.card hworkers).symm
  · intro c
    exact (Iff.of_eq (congrArg (c ∈ ·) hworkers)).trans (mem_workers_iff hs.registered hempty c)

theorem Inv.start : Inv machine.start := by
  refine ⟨fun _ => ⟨.start, ⟨?_, rfl⟩, rfl⟩, ?_, ?_, ?_, ?_⟩
  · intro c hc
    exact absurd hc List.not_mem_nil
  · intro _ h
    cases h
  · intro h
    exact absurd rfl h
  · intro h
    cases h
  · intro h
    cases h

theorem Inv.step {a : Action} (h : Inv s) (hs : Teardown.step s a = some t) : Inv t := by
  cases a with
  | sched a =>
    obtain ⟨⟨hm, hawake, hlive⟩, hs⟩ := Option.ite_none_right_eq_some.mp hs
    obtain ⟨u, hu, rfl⟩ := Option.map_eq_some_iff.mp hs
    obtain ⟨hsched, hkept, hpc⟩ := h.sched hlive
    obtain ⟨hsame, hshutdown, hdestroyed⟩ := after_eq s u a
    refine ⟨fun _ => ?_, fun _ hdown => ?_, fun hnot => ?_, fun hdown => ?_, fun hd => ?_⟩
    · rw [hsame]
      exact ⟨hsched.step hu, hkept.step hsched hu, (Scheduler.step_dispatcher_pc hu).trans hpc⟩
    · rw [hshutdown] at hdown
      have hjoins := h.joins hlive hdown
      rw [hsame]
      apply hjoins.step hsched hu
      rintro rfl
      rw [State.mayCall, hjoins.2] at hm
      cases hm
    · rw [hsame]
      exact (after_suspended hu hawake hnot).1
    · rw [hshutdown] at hdown
      by_contra hnot
      have hnot' := (after_suspended hu hawake hnot).2
      rw [hdown] at hnot'
      cases hnot'
    · rw [hdestroyed, hlive] at hd
      cases hd
  | destroy =>
    obtain ⟨⟨hu, hm, hdown⟩, rfl⟩ := Option.ite_none_right_eq_some.mp hs |>.imp_right Option.some.inj
    have hlive : s.destroyed = false := by
      rw [← Bool.not_eq_true]
      intro hd
      have hdown' := (h.destroyed hd).1
      rw [hdown] at hdown'
      cases hdown'
    have hawake : s.suspended = none := by
      by_contra hnot
      exact hu.1 (h.suspended hnot)
    obtain ⟨hsched, hkept, hpc⟩ := h.sched hlive
    have hdispatcher := hsched.dispatcher_live
    refine ⟨fun _ => ⟨hsched.join_live hu hdispatcher, ?_, ?_⟩, fun _ _ => .begin hsched hu hm,
      fun hnot => absurd hawake hnot, fun _ => hawake, fun hd => ?_⟩
    · rw [Scheduler.State.join, if_neg (by simp [hdispatcher.2])]
      simp only [Scheduler.resumeNext_registry, Scheduler.waitLink_registry]
      exact hkept
    · exact (Scheduler.join_pc _ (c := dispatcherCtx) _ (by rw [hm]; decide)).trans hpc
    · rw [show s.destroyed = false from hlive] at hd
      cases hd
  | timeout now =>
    rw [Teardown.step] at hs
    split at hs
    case h_1 timePoint hsuspended =>
      obtain ⟨⟨_, _, hnow⟩, rfl⟩ := Option.ite_none_right_eq_some.mp hs |>.imp_right Option.some.inj
      refine ⟨fun hlive => ?_, h.joins, fun hnot => absurd rfl hnot, fun _ => rfl, fun hd => ?_⟩
      · obtain ⟨hsched, hkept, hpc⟩ := h.sched hlive
        exact ⟨hsched.setClock hnow, hkept, hpc⟩
      · have hawake := h.notified (h.destroyed hd).1
        rw [hsuspended] at hawake
        cases hawake
    case h_2 => cases hs
  | leave =>
    obtain ⟨⟨hdown, hawake, hlive, hd, hempty⟩, rfl⟩ :=
      Option.ite_none_right_eq_some.mp hs |>.imp_right Option.some.inj
    obtain ⟨hsched, hkept, _⟩ := h.sched hlive
    obtain ⟨_, hsuspended, hshutdown, _⟩ := notify_eq s
    refine ⟨fun hlive' => ?_, fun hlive' => ?_, fun hnot => ?_, fun _ => hsuspended.trans hawake, fun _ => ?_⟩
    · cases hlive'
    · cases hlive'
    · exact absurd (hsuspended.trans hawake) hnot
    · exact ⟨hshutdown.trans hdown, .of_leave (h.joins hlive hdown) hsched hkept hd hempty⟩

theorem Inv.of_reachable (h : machine.Reachable s) : Inv s :=
  h.invariant Inv.start fun _ _ _ hi hs => hi.step hs

/-! ### The destructor -/

/-- Between the call of `~scheduler` and its return the main context does not run, no assertion fails, and when it
has returned every fiber has run to its end: the queues are empty, and the contexts that are left are those that
`fiber` objects still refer to. -/
theorem scheduler_destroyed (h : machine.Reachable s) :
    s.sched.fault = none ∧ (s.shutdown → s.destroyed = false → s.sched.active ≠ mainCtx) ∧
      (s.destroyed → Destroyed s.sched) := by
  have hinv := Inv.of_reachable h
  refine ⟨?_, fun hdown hlive => ?_, fun hd => (hinv.destroyed hd).2⟩
  · cases hd : s.destroyed with
    | true => exact (hinv.destroyed hd).2.fault
    | false => exact (hinv.sched hd).1.fault_none
  · exact (hinv.joins hlive hdown).not_active (hinv.sched hlive).1

/-- A fiber that has not run yet when the thread ends; the scheduler runs it, and no context is left. -/
theorem scheduler_destroyed_pending : ∃ s : State, s.destroyed = true ∧ s.sched.contexts = 0 ∧
    s.sched.fault = none ∧ Destroyed s.sched := by
  obtain ⟨s, hs, hd, hc⟩ : ∃ s, machine.exec machine.start [.sched (.create .post), .sched (.detach 2), .destroy,
      .sched (.dispatch 0), .sched .setTerminated, .sched (.dispatch 1), .leave] = some s ∧
      s.destroyed = true ∧ s.sched.contexts = 0 := ⟨_, rfl, rfl, rfl⟩
  obtain ⟨hfault, _, hdestroyed⟩ := scheduler_destroyed (Machine.reachable_of_exec hs)
  exact ⟨s, hd, hc, hfault, hdestroyed hd⟩

/-- The worker contexts have all ended. -/
def Ended (s : Scheduler.State) : Prop :=
  ∀ c, dispatcherCtx < c → c < s.ncreated → s.terminated c = true

theorem Joins.dispatcher_active {s : Scheduler.State} (h : Joins s) (hs : Scheduled s) (he : Ended s) :
    s.active = dispatcherCtx := by
  obtain ⟨hn, ht⟩ := hs.active_live
  rcases Nat.lt_trichotomy s.active dispatcherCtx with hlt | heq | hgt
  · exact absurd (Nat.lt_one_iff.mp hlt) (h.not_active hs)
  · exact heq
  · rw [he _ hgt hn] at ht
    cases ht

theorem Kept.dispatch_empty {s : Scheduler.State} (h : Kept s.toRegistry) (hs : Scheduled s) (he : Ended s)
    (now : TimePoint) : (s.dispatch now).workerQueue = [] := by
  have hreg := congrArg Scheduler.Registry.workerQueue (Scheduler.dispatch_registry s now)
  rw [hreg, Scheduler.releaseTerminated_workerQueue]
  apply List.eq_nil_iff_forall_not_mem.mpr
  intro c hc
  rw [hs.registered.worker_nodup.mem_sdiff_iff] at hc
  obtain ⟨hlt, hn⟩ := hs.registered.worker_mem c hc.1
  exact hc.2 (h.queued c hc.1 (he c hlt hn))

/-- `~scheduler` has been called, and only the dispatcher is left to run. -/
structure Returning (s : State) : Prop where
  inv : Inv s
  shutdown : s.shutdown = true
  live : s.destroyed = false
  ended : Ended s.sched

theorem Returning.active (h : Returning s) : s.sched.active = dispatcherCtx :=
  (h.inv.joins h.live h.shutdown).dispatcher_active (h.inv.sched h.live).1 h.ended

/-- Whatever the clock says, the dispatcher goes on. -/
theorem Returning.enabled (h : Returning s) {now : TimePoint} (hnow : s.sched.clock ≤ now) :
    ∃ a t, (a = .leave ∨ a = .sched (.dispatch now)) ∧ Teardown.step s a = some t := by
  have hawake := h.inv.notified h.shutdown
  by_cases hempty : s.sched.workerQueue = []
  · exact ⟨.leave, _, .inl rfl, if_pos ⟨h.shutdown, hawake, h.live, h.active, hempty⟩⟩
  · have hround : Scheduler.step s.sched (.dispatch now) = some (s.sched.dispatch now) := by
      simp [Scheduler.step, Scheduler.enabled, Scheduler.perform, h.active, hnow]
    have hmay : s.mayCall (.dispatch now) = true := by
      simp [State.mayCall, hempty]
    refine ⟨.sched (.dispatch now), s.after (s.sched.dispatch now) (.dispatch now), .inr rfl, ?_⟩
    simp only [Teardown.step, hmay, hawake, h.live, hround, Option.map_some, and_self, if_true]

/-- Nobody else does, and a round of the dispatcher is its last. -/
theorem Returning.step (h : Returning s) {a : Action} (hs : Teardown.step s a = some t) :
    t.destroyed = true ∨ s.sched.workerQueue ≠ [] ∧ Returning t ∧ t.sched.workerQueue = [] := by
  have hinv := h.inv.step hs
  have hactive := h.active
  cases a with
  | destroy =>
    obtain ⟨⟨hu, _⟩, _⟩ := Option.ite_none_right_eq_some.mp hs
    exact absurd hactive hu.1
  | timeout now =>
    have hawake := h.inv.notified h.shutdown
    rw [Teardown.step, hawake] at hs
    cases hs
  | leave =>
    obtain ⟨_, rfl⟩ := Option.ite_none_right_eq_some.mp hs |>.imp_right Option.some.inj
    exact .inl rfl
  | sched a =>
    obtain ⟨⟨hm, _, _⟩, hs⟩ := Option.ite_none_right_eq_some.mp hs
    obtain ⟨u, hu, rfl⟩ := Option.map_eq_some_iff.mp hs
    obtain ⟨hsame, hshutdown, hdestroyed⟩ := after_eq s u a
    obtain ⟨hsched, hkept, _⟩ := h.inv.sched h.live
    obtain ⟨he, hu⟩ := Scheduler.step_perform hu
    have hdispatch : ∃ now, a = .dispatch now := by
      cases a with
      | dispatch now => exact ⟨now, rfl⟩
      | resumed now => exact absurd hactive (of_decide_eq_true he).1
      | _ => exact absurd hactive (Scheduler.enabled_inUser he (by simp) (by simp)).1
    obtain ⟨now, rfl⟩ := hdispatch
    have hempty := hkept.dispatch_empty hsched h.ended now
    have hagree := Scheduler.dispatch_agree s.sched now
    rw [show s.sched.dispatch now = u from hu] at hempty hagree
    refine .inr ⟨?_, ⟨hinv, hshutdown.trans h.shutdown, hdestroyed.trans h.live, ?_⟩, ?_⟩
    · intro hnone
      simp [State.mayCall, h.shutdown, hnone] at hm
    · rw [hsame]
      intro c hc hn
      rw [hagree.terminated]
      rw [hagree.ncreated] at hn
      exact h.ended c hc hn
    · rw [hsame]
      exact hempty

theorem step_destroyed (hd : s.destroyed = true) (hinv : Inv s) (a : Action) : Teardown.step s a = none := by
  obtain ⟨hdown, _⟩ := hinv.destroyed hd
  cases a with
  | sched a => simp [Teardown.step, hd]
  | destroy => simp [Teardown.step, hdown]
  | timeout now => rw [Teardown.step, hinv.notified hdown]
  | leave => simp [Teardown.step, hd]

/-- `~scheduler` returns once the fibers have ended: in every run it has returned after two steps at most, and
until then the dispatcher is not suspended but goes on at every reading of the clock. -/
theorem scheduler_destructor_returns (h : machine.Reachable s) (hdown : s.shutdown) (hlive : s.destroyed = false)
    (he : Ended s.sched) {as : List Action} (hrun : machine.exec s as = some t) :
    t.destroyed = true ∧ as.length ≤ 2 ∨
      as.length ≤ 1 ∧ t.suspended = none ∧ ∀ now, t.sched.clock ≤ now →
        ∃ a u, (a = .leave ∨ a = .sched (.dispatch now)) ∧ machine.step t a = some u := by
  have hs : Returning s := ⟨.of_reachable h, hdown, hlive, he⟩
  have hgoes : ∀ u : State, Returning u → u.suspended = none ∧ ∀ now, u.sched.clock ≤ now →
      ∃ a v, (a = .leave ∨ a = .sched (.dispatch now)) ∧ machine.step u a = some v :=
    fun u hu => ⟨hu.inv.notified hu.shutdown, fun now hnow => hu.enabled hnow⟩
  have hends : ∀ u : State, Inv u → u.destroyed = true → ∀ bs, machine.exec u bs = some t →
      t.destroyed = true ∧ bs = [] := by
    intro u hu hd bs hbs
    cases bs with
    | nil =>
      obtain rfl := Option.some.inj hbs
      exact ⟨hd, rfl⟩
    | cons b bs =>
      obtain ⟨v, hv, _⟩ := Machine.exec_cons.mp hbs
      rw [show machine.step u b = none from step_destroyed hd hu b] at hv
      cases hv
  cases as with
  | nil =>
    obtain rfl := Option.some.inj hrun
    exact .inr ⟨Nat.zero_le 1, hgoes s hs⟩
  | cons a as =>
    obtain ⟨u, hu, hrun⟩ := Machine.exec_cons.mp hrun
    have hinv := hs.inv.step hu
    rcases hs.step hu with hd | ⟨_, hu', hempty⟩
    · obtain ⟨ht, rfl⟩ := hends u hinv hd as hrun
      exact .inl ⟨ht, Nat.le_succ 1⟩
    · cases as with
      | nil =>
        obtain rfl := Option.some.inj hrun
        exact .inr ⟨Nat.le_refl 1, hgoes u hu'⟩
      | cons b bs =>
        obtain ⟨v, hv, hrun⟩ := Machine.exec_cons.mp hrun
        rcases hu'.step hv with hd | ⟨hnot, _⟩
        · obtain ⟨ht, rfl⟩ := hends v (hinv.step hv) hd bs hrun
          exact .inl ⟨ht, Nat.le_refl 2⟩
        · exact absurd hempty hnot

/-- The fiber has ended and is not yet released. -/
theorem scheduler_destructor_returns_ended : ∃ s : State, s.sched.workerQueue = [2] ∧
    ∃ t, machine.exec s [.sched (.dispatch 5), .leave] = some t ∧ t.destroyed = true := by
  obtain ⟨s, hs, hw, hdown, hlive, hn, ht⟩ : ∃ s, machine.exec machine.start [.sched (.create .post), .destroy,
      .sched (.dispatch 0), .sched .setTerminated] = some s ∧ s.sched.workerQueue = [2] ∧
      s.shutdown = true ∧ s.destroyed = false ∧ s.sched.ncreated = 3 ∧ s.sched.terminated 2 = true :=
    ⟨_, rfl, rfl, rfl, rfl, rfl, rfl⟩
  have hended : Ended s.sched := by
    intro c hc hlt
    rw [hn] at hlt
    obtain rfl : c = 2 := Nat.le_antisymm (Nat.lt_succ_iff.mp hlt) hc
    exact ht
  obtain ⟨t, hrun⟩ : ∃ t, machine.exec s [.sched (.dispatch 5), .leave] = some t := by
    cases hs
    exact ⟨_, rfl⟩
  refine ⟨s, hw, t, hrun, ?_⟩
  rcases scheduler_destructor_returns (Machine.reachable_of_exec hs) hdown hlive hended hrun with hd | ⟨hle, _⟩
  · exact hd.1
  · exact absurd hle (by decide)

end Dumbo.Fiber.Teardown
