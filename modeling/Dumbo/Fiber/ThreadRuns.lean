import Dumbo.Fiber.ThreadQueues
import Dumbo.Fiber.ThreadSteps

/-!
# Runs of threads that share their work

In every run a context is in one place: no worker is lost, and none runs on two threads. A thread that ends
leaves the workers behind that stand in a queue of ready workers.
-/

namespace Dumbo.Fiber.Threads

open Transition
open Scheduler (TimePoint timeMax Launch)

variable {T : Type} {algo : Algo} {s s' : State T} {place : CtxId T → Place T} {t u : T} {c d : CtxId T}
  {a : Action T} {suspend : Bool}

/-! ### The end of a thread -/

theorem Inv.no_worker (h : Inv algo s place) (hworkers : (s.thread t).workerQueue = [])
    (htaken : (s.thread t).pc.taken = none) (n : Nat) : (place (.worker n)).owner ≠ some t := by
  intro howner
  have hlocal := h.placed.own _ _ howner
  have hallowed := h.placed.allows (.worker n)
  cases hp : place (.worker n) with
  | taken v =>
    rw [hp] at hlocal
    have hheld := (congrArg Local.taken hlocal).mpr trivial
    cases htaken.symm.trans hheld
  | ready v =>
    rw [hp] at hallowed
    cases hallowed
  | attached v a standing =>
    rw [hp] at hlocal
    have hmem : CtxId.worker n ∈ (s.thread t).workerQueue := (congrArg Local.worker hlocal).mpr rfl
    rw [hworkers] at hmem
    cases hmem
  | fresh | queued q | detached | released v =>
    rw [hp] at howner
    cases howner

section Steps

variable [DecidableEq T] [Fintype T]

theorem Inv.leave (h : Inv algo s place) (hactive : (s.thread t).active = .dispatcher t)
    (hpc : (s.thread t).pc = .user) (hdown : (s.thread t).shutdown)
    (hworkers : (s.thread t).workerQueue = []) : ∃ place', Inv algo (s.leave t) place' := by
  have hlive : (s.thread t).pc ≠ .destroyed := by
    rw [hpc]
    simp
  have hnone := h.no_worker hworkers (by rw [hpc]; rfl)
  have hdispatcher := h.dispatcher_running hactive
  obtain ⟨a, hmain⟩ := (h.thread t).joining hdown hlive
  have ha : a = false := by
    cases a with
    | false => rfl
    | true => cases hactive.symm.trans ((h.placed.attached_active hmain).mp rfl)
  subst ha
  have hterminated : (s.thread t).terminatedQueue = [] := by
    refine List.eq_nil_iff_forall_not_mem.mpr fun c hc => ?_
    obtain ⟨a, ha⟩ := h.placed.of_retired hc
    have hallowed := h.placed.allowed ha
    cases c with
    | main v => exact hallowed.2 rfl
    | dispatcher v => cases hallowed.2
    | worker n => exact hnone n (by rw [ha]; rfl)
  have hsleep : (s.thread t).sleepQueue = [] := by
    refine List.eq_nil_iff_forall_not_mem.mpr fun c hc => ?_
    obtain ⟨a, ha⟩ := h.placed.of_sleeping hc
    have hallowed := h.placed.allowed ha
    cases c with
    | main v =>
      obtain rfl : v = t := hallowed.1
      cases hmain.symm.trans ha
    | dispatcher v => cases hallowed.2
    | worker n => exact hnone n (by rw [ha]; rfl)
  have hswitch := h.placed.switch (t := t) (c := .main t) (hactive ▸ hdispatcher) hmain
  rw [hactive] at hswitch
  have hplaced := hswitch.waitUnlink (c := .main t) (Function.update_self _ _ _)
  rw [Function.update_idem] at hplaced
  have hthread : ((s.setActive t (.main t)).waitUnlink (.main t)).thread t =
      { s.thread t with active := .main t } := setThread_self _ _ _
  have hne : CtxId.dispatcher t ≠ .main t := by simp
  have hfree : ∀ c, (∃ a, (Function.update (Function.update place (.dispatcher t) (.attached t false .running))
      (.main t) (.attached t true .running)) c = .attached t a .running) →
      ((s.setActive t (.main t)).waitUnlink (.main t)).Destructible c := by
    rintro c ⟨a, ha⟩
    obtain ⟨hready, hsleep, -, hhook⟩ := hplaced.unlinked (.inr ⟨t, a, ha⟩)
    exact ⟨hready, hsleep, hhook⟩
  have hempty : (((s.setActive t (.main t)).waitUnlink (.main t)).thread t).workerQueue = [] ∧
      (((s.setActive t (.main t)).waitUnlink (.main t)).thread t).terminatedQueue = [] ∧
      (((s.setActive t (.main t)).waitUnlink (.main t)).thread t).sleepQueue = [] := by
    rw [hthread]
    exact ⟨hworkers, hterminated, hsleep⟩
  have hdestructible := And.intro
    (hfree (.dispatcher t) ⟨false, by rw [Function.update_of_ne hne, Function.update_self]⟩)
    (hfree (.main t) ⟨true, Function.update_self _ _ _⟩)
  have heq : s.leave t = ((s.setActive t (.main t)).waitUnlink (.main t)).setPc t .destroyed := by
    simp only [State.leave, hterminated, State.releaseTerminated, State.require_pos hempty,
      State.require_pos hdestructible]
  rw [heq]
  have hsame : ∀ u, u ≠ t →
      ((((s.setActive t (.main t)).waitUnlink (.main t)).setPc t .destroyed).thread u).Same (s.thread u) := by
    intro u hu
    rw [State.setPc, setThread_of_ne _ _ hu]
    show ((s.setActive t (.main t)).thread u).Same _
    rw [State.setActive, setThread_of_ne _ _ hu]
    exact ⟨rfl, rfl, rfl⟩
  refine ⟨_, hplaced.setPc (by rw [hthread, hpc]; rfl), fun u => ?_, fun d => ?_, h.fault⟩
  · by_cases hu : u = t
    · subst hu
      rw [setPc_thread, hthread]
      refine ⟨⟨rfl, fun n => ?_⟩, fun hgone => absurd rfl hgone, fun _ hgone => absurd rfl hgone⟩
      rw [Function.update_of_ne (by simp), Function.update_of_ne (by simp)]
      exact hnone n
    · have hmoved := ((h.thread u).move (c := .dispatcher t) (p := .attached t false .running)
        (by rw [hdispatcher]; exact owner_ne rfl hu) (owner_ne rfl hu)).move (c := .main t)
        (p := .attached t true .running) (by
          rw [Function.update_of_ne (Ne.symm hne), hmain]
          exact owner_ne rfl hu) (owner_ne rfl hu)
      exact hmoved.congr (hsame u hu)
  · by_cases hd : d = .main t
    · subst hd
      rw [Function.update_self]
      exact ⟨by simp, fun u hu => by cases hu⟩
    · rw [Function.update_of_ne hd]
      by_cases hd' : d = .dispatcher t
      · subst hd'
        rw [Function.update_self]
        refine ⟨by simp, fun u hu => ?_⟩
        cases hu
        rw [setPc_thread]
      · rw [Function.update_of_ne hd']
        refine ⟨(h.settled d).1, fun u hu => ?_⟩
        have hgone := (h.settled d).2 u hu
        have hne : u ≠ t := by
          rintro rfl
          exact hlive hgone
        exact (hsame u hne).2.1.trans hgone

theorem Inv.round (h : Inv algo s place) (hactive : (s.thread t).active = .dispatcher t)
    (hpc : (s.thread t).pc = .user) (now : TimePoint) :
    ∃ place', Inv algo ((s.releaseTerminated t (s.thread t).terminatedQueue).setPc t (.expiring now))
      place' := by
  obtain ⟨place', hreleased, hactive', hpc'⟩ := h.releaseTerminated _ hactive hpc rfl
  exact ⟨place', hreleased.goto (by rw [hpc']; simp) (by rw [hpc']; rfl) hactive'⟩

theorem Inv.dispatch (h : Inv algo s place) (hactive : (s.thread t).active = .dispatcher t)
    (hpc : (s.thread t).pc = .user) (now : TimePoint) :
    ∃ place', Inv algo (s.dispatch suspend t now) place' := by
  have hclock := h.setClock now
  simp only [State.dispatch]
  split
  · rename_i hdown
    have hnotify : Inv algo (State.notify { s with clock := now } suspend t) place ∧
        ((State.notify { s with clock := now } suspend t).thread t).active = .dispatcher t ∧
        ((State.notify { s with clock := now } suspend t).thread t).pc = .user ∧
        ((State.notify { s with clock := now } suspend t).thread t).shutdown := by
      rw [State.notify]
      split
      · refine ⟨hclock.setFlag true, ?_⟩
        rw [setThread_self]
        exact ⟨hactive, hpc, hdown⟩
      · exact ⟨hclock, hactive, hpc, hdown⟩
    obtain ⟨hinv, hactive, hpc, hdown⟩ := hnotify
    split
    · rename_i hworkers
      exact hinv.leave hactive hpc hdown hworkers
    · exact hinv.round hactive hpc now
  · exact hclock.round hactive hpc now

omit [Fintype T] in
theorem Inv.suspendReturn (h : Inv algo s place) {now : TimePoint} (hs : s.mayReturn suspend t now) :
    Inv algo (s.suspendReturn suspend t now) place := by
  obtain ⟨timePoint, hpc⟩ : ∃ timePoint, (s.thread t).pc = .suspended timePoint := by
    rw [State.mayReturn] at hs
    split at hs
    · rename_i timePoint hpc
      exact ⟨timePoint, hpc⟩
    · cases hs
  obtain ⟨hactive, -⟩ := h.pc hpc
  have hflag := (h.setClock now).setFlag (t := t) (!suspend && (s.thread t).flag)
  have hgoto : Inv algo ((State.setThread { s with clock := now } t
      { s.thread t with flag := !suspend && (s.thread t).flag }).setPc t .user) place := hflag.goto
    (by rw [setThread_self]; show (s.thread t).pc ≠ _; rw [hpc]; simp)
    (by rw [setThread_self]; show _ = (s.thread t).pc.taken; rw [hpc]; rfl) (by
      rw [setThread_self]
      show place (s.thread t).active = _
      rw [hactive]
      exact h.dispatcher_running hactive)
  have heq : s.suspendReturn suspend t now = (State.setThread { s with clock := now } t
      { s.thread t with flag := !suspend && (s.thread t).flag }).setPc t .user := by
    simp [State.suspendReturn, State.setPc, State.setThread]
  rw [heq]
  exact hgoto

/-! ### Runs -/

/-- The assertions that a run can fail. -/
inductive Fails (algo : Algo) (s : State T) : Prop
  | foreign (h : s.fault = some .foreign)
  | dangling (h : s.fault = some .dangling) (hsteals : algo = .workStealing)
    (hgone : ∃ t, (s.thread t).pc = .destroyed)

omit [DecidableEq T] [Fintype T] in
theorem Fails.fault_ne (h : Fails algo s) : s.fault ≠ none := by
  cases h <;> simp_all

omit [Fintype T] in
theorem Inv.steals (h : Inv algo s place) {r : Option (CtxId T)} (hpc : (s.thread t).pc = .stealing r)
    {victim : T} (hvictim : victim ≠ t) (lost : Bool) :
    Fails algo (s.steal t victim lost r) ∨ ∃ place', Inv algo (s.steal t victim lost r) place' := by
  by_cases hgone : (s.thread victim).pc = .destroyed
  · left
    have hfail : s.steal t victim lost r = s.fail .dangling := if_pos hgone
    have hfault : (s.fail .dangling).fault = some .dangling := by
      rw [State.fail, h.fault]
      rfl
    rw [hfail]
    exact .dangling hfault (h.pc hpc).1 ⟨victim, hgone⟩
  · exact .inr (h.steal hpc hvictim lost hgone)

theorem Inv.step (h : Inv algo s place) (hs : Threads.step algo suspend s a = some s') :
    Fails algo s' ∨ ∃ place', Inv algo s' place' := by
  obtain ⟨⟨-, henabled⟩, rfl⟩ := Option.ite_none_right_eq_some.mp hs |>.imp_right Option.some.inj
  cases a with
  | create t policy => exact .inr (h.create (of_decide_eq_true henabled) policy)
  | yield t => exact .inr ⟨place, h.yield (of_decide_eq_true henabled)⟩
  | suspend t q => exact .inr (h.suspend (of_decide_eq_true henabled) q)
  | waitUntil t sleepTp => exact .inr (h.waitUntil (of_decide_eq_true henabled) sleepTp)
  | wake t c =>
    obtain ⟨huser, hwaits⟩ := of_decide_eq_true henabled
    exact (h.wake huser hwaits).imp_left .foreign
  | setTerminated t =>
    obtain ⟨huser, hmain⟩ := of_decide_eq_true henabled
    exact .inr (h.setTerminated huser hmain)
  | destroy t =>
    obtain ⟨huser, hmain⟩ := of_decide_eq_true henabled
    exact .inr (h.destroy huser hmain)
  | dispatch t now =>
    obtain ⟨hpc, hactive, -⟩ := of_decide_eq_true henabled
    exact .inr (h.dispatch hactive hpc now)
  | go t =>
    obtain ⟨s', hgo⟩ := Option.isSome_iff_exists.mp henabled
    simp only [perform, hgo]
    exact .inr (h.go hgo)
  | lose t =>
    obtain ⟨-, hpicks⟩ := of_decide_eq_true henabled
    obtain ⟨r, hr⟩ := Option.isSome_iff_exists.mp hpicks
    simp only [perform, hr]
    exact .inr (h.pickLocal (ThreadPc.picks_eq_some hr))
  | steal t victim lost =>
    obtain ⟨hsteals, hvictim⟩ := of_decide_eq_true henabled
    obtain ⟨r, hr⟩ := Option.isSome_iff_exists.mp hsteals
    simp only [perform, hr]
    exact h.steals (ThreadPc.steals_eq_some hr) hvictim lost
  | suspendReturn t now =>
    obtain ⟨hreturn, -⟩ := of_decide_eq_true henabled
    exact .inr ⟨place, h.suspendReturn hreturn⟩

omit [DecidableEq T] [Fintype T] in
/-- The places at the start. -/
def startPlace : CtxId T → Place T
  | .main t => .attached t true .running
  | .dispatcher t => .ready t
  | .worker _ => .fresh

omit [DecidableEq T] [Fintype T] in
theorem Inv.start : Inv algo (start : State T) startPlace := by
  refine ⟨⟨fun c => ?_, fun c u hu => ?_, fun c u hu => ?_, fun c => ?_, fun _ => List.nodup_nil, fun u => ?_⟩,
    fun u => ⟨rfl, fun _ => .inl rfl, by simp [Threads.start]⟩, fun c => ?_, rfl⟩
  · cases c <;> simp [Threads.start, State.shared, State.Created, startPlace, Place.shared, Standing.hook]
  · cases c with
    | main v =>
      obtain rfl : v = u := Option.some.inj hu
      simp [Threads.start, Thread.local, startPlace, Place.own, attachedLocal, ThreadPc.taken, CtxId.pinned]
    | dispatcher v =>
      obtain rfl : v = u := Option.some.inj hu
      simp [Threads.start, Thread.local, startPlace, Place.own, nowhere, ThreadPc.taken]
    | worker n => cases hu
  · cases c with
    | main v | dispatcher v =>
      have hne : ¬ u = v := fun huv => hu (congrArg some huv.symm)
      simp [Threads.start, Thread.local, nowhere, ThreadPc.taken, hne, Ne.symm hne]
    | worker n => simp [Threads.start, Thread.local, nowhere, ThreadPc.taken]
  · cases c with
    | main v => exact ⟨rfl, by simp⟩
    | dispatcher v => rfl
    | worker n => trivial
  · exact ⟨List.nodup_singleton _, List.nodup_nil, List.nodup_nil, List.nodup_nil⟩
  · cases c <;> simp [startPlace]

theorem Inv.of_reachable (h : (machine T algo suspend).Reachable s) :
    Fails algo s ∨ ∃ place, Inv algo s place := by
  refine h.invariant (P := fun s => Fails algo s ∨ ∃ place, Inv algo s place) (.inr ⟨_, Inv.start⟩) ?_
  intro s a s' hi hs
  rcases hi with hfails | ⟨place, hinv⟩
  · exact absurd (Option.ite_none_right_eq_some.mp hs).1.1 hfails.fault_ne
  · exact hinv.step hs

end Steps

/-! ### One place -/

/-- Where a worker can be. -/
inductive Whereabouts (T : Type)
  | queued (q : Option T)
  | taken (t : T)
  | active (t : T)
  | blocked (t : T)
  | ended

def Whereabouts.thread : Whereabouts T → Option T
  | .taken t | .active t | .blocked t => some t
  | _ => none

/-- A worker that a thread has taken is on its way to or from a queue of ready workers; one that is blocked is
linked in the sleep queue or in the queue of a primitive. -/
def State.At (s : State T) (c : CtxId T) : Whereabouts T → Prop
  | .queued q => c ∈ s.rqueue q
  | .taken t => (s.thread t).pc.taken = some c
  | .active t => (s.thread t).active = c
  | .blocked t => s.scheduler c = some t ∧ (s.thread t).active ≠ c ∧
    (c ∈ (s.thread t).sleepQueue ∨ s.waitHook c ≠ none)
  | .ended => s.terminated c = true ∧ ∀ t, (s.thread t).active ≠ c

/-- The whereabouts that a place stands for. -/
def Place.whereabouts : Place T → Whereabouts T
  | .taken t => .taken t
  | .attached t true _ => .active t
  | .attached _ false .ending => .ended
  | .attached t false _ => .blocked t
  | .released _ => .ended
  | .queued q => .queued q
  | .fresh | .detached | .ready _ => .queued none

theorem Inv.at (h : Inv algo s place) {n : Nat} (hn : n < s.ncreated) :
    s.At (.worker n) (place (.worker n)).whereabouts := by
  have hshared := h.placed.shared (.worker n)
  have hallowed := h.placed.allows (.worker n)
  cases hp : place (.worker n) with
  | fresh =>
    rw [hp] at hshared
    exact ((congrArg Shared.created hshared).mp hn).elim
  | queued q =>
    rw [hp] at hshared
    have hqueued : (.worker n ∈ s.rqueue q) = (q = q) := congrFun (congrArg Shared.queued hshared) q
    exact hqueued.mpr rfl
  | detached => exact absurd hp (h.settled _).1
  | taken t => exact (congrArg Local.taken (h.placed.own_eq hp rfl)).mpr trivial
  | ready t =>
    rw [hp] at hallowed
    cases hallowed
  | released t =>
    rw [hp] at hshared
    exact ⟨(congrArg Shared.terminated hshared).mpr trivial, fun u => h.placed.active_ne (by rw [hp]; simp)⟩
  | attached t a standing =>
    cases a with
    | true => exact (h.placed.attached_active hp).mp rfl
    | false =>
      have hne : ∀ u, (s.thread u).active ≠ .worker n := fun u => h.placed.active_ne (by rw [hp]; simp)
      cases standing with
      | running =>
        have hgone := h.pc ((h.settled _).2 t hp)
        exact absurd (by rw [hp]; rfl) (hgone.2 n)
      | hooked link =>
        refine ⟨h.placed.scheduler_eq hp, hne t, .inr fun hnone => ?_⟩
        rw [hp] at hshared
        cases hnone.symm.trans (congrArg Shared.hook hshared)
      | sleeping =>
        have hmem := (congrArg Local.sleeping (h.placed.own_eq hp rfl)).mpr rfl
        exact ⟨h.placed.scheduler_eq hp, hne t, .inl hmem⟩
      | ending =>
        rw [hp] at hshared
        exact ⟨(congrArg Shared.terminated hshared).mpr rfl, hne⟩

theorem Inv.at_unique (h : Inv algo s place) {n : Nat} {w : Whereabouts T} (hw : s.At (.worker n) w) :
    w = (place (.worker n)).whereabouts := by
  have hactive : ∀ {t a standing}, place (.worker n) = .attached t a standing →
      (s.thread t).active ≠ .worker n → a = false := by
    intro t a standing hp hne
    cases a with
    | false => rfl
    | true => exact absurd ((h.placed.attached_active hp).mp rfl) hne
  cases w with
  | queued q =>
    rw [h.placed.of_queued hw]
    rfl
  | taken t =>
    rw [h.placed.of_taken hw]
    rfl
  | active t =>
    obtain ⟨standing, hp⟩ := h.placed.of_active t
    have hworker : (s.thread t).active = .worker n := hw
    rw [hworker] at hp
    rw [hp]
    rfl
  | blocked t =>
    obtain ⟨hscheduler, hne, hsleep | hhook⟩ := hw
    · obtain ⟨a, hp⟩ := h.placed.of_sleeping hsleep
      obtain rfl := hactive hp hne
      rw [hp]
      rfl
    · obtain ⟨link, hlink⟩ := Option.ne_none_iff_exists'.mp hhook
      obtain ⟨u, a, hp⟩ := h.placed.of_hook hlink
      obtain rfl : u = t := Option.some.inj ((h.placed.scheduler_eq hp).symm.trans hscheduler)
      obtain rfl := hactive hp hne
      rw [hp]
      rfl
  | ended =>
    obtain ⟨hterminated, hne⟩ := hw
    have hended := congrArg Shared.terminated (h.placed.shared (.worker n))
    have hended : (place (.worker n)).shared.terminated := hended.mp hterminated
    cases hp : place (.worker n) with
    | attached t a standing =>
      obtain rfl := hactive hp (hne t)
      rw [hp] at hended
      obtain rfl : standing = .ending := hended
      rfl
    | released t => rfl
    | _ =>
      rw [hp] at hended
      cases hended

/-- What holds of threads until an assertion fails. -/
structure Sharing (algo : Algo) (s : State T) : Prop where
  /-- the queues of ready workers are those of the algorithm -/
  used : ∀ q, s.rqueue q ≠ [] → ∃ t, q = algo.rqueue t
  nodup : ∀ q, (s.rqueue q).Nodup
  /-- no worker is lost, or in two places -/
  worker : ∀ n < s.ncreated, ∃! w, s.At (.worker n) w
  /-- a thread runs the contexts of its own scheduler -/
  active : ∀ t, s.scheduler (s.thread t).active = some t
  /-- what is in a queue of ready workers has no scheduler and is not linked -/
  queued : ∀ q, ∀ c ∈ s.rqueue q, c.pinned = false ∧ s.scheduler c = none ∧ s.Unlinked c

variable [DecidableEq T] [Fintype T]

theorem Inv.sharing (h : Inv algo s place) (hr : (machine T algo suspend).Reachable s) : Sharing algo s := by
  refine ⟨fun q hq => queues_used hr hq, h.placed.nodup, fun n hn => ⟨_, h.at hn, fun w hw => h.at_unique hw⟩,
    fun t => ?_, fun q c hc => ?_⟩
  · obtain ⟨standing, hp⟩ := h.placed.of_active t
    exact h.placed.scheduler_eq hp
  · have hp := h.placed.of_queued hc
    have hallowed := h.placed.allowed hp
    have hunlinked : s.Unlinked c := by
      refine ⟨h.placed.not_readyLinked (by rw [hp]; simp), h.placed.not_sleepLinked (by rw [hp]; simp), ?_,
        h.placed.not_hooked hp rfl⟩
      rintro ⟨u, hu⟩
      obtain ⟨a, ha⟩ := h.placed.of_retired hu
      cases hp.symm.trans ha
    cases c with
    | worker n => exact ⟨rfl, h.placed.scheduler_eq hp, hunlinked⟩
    | main v | dispatcher v => cases hallowed

/-- Whatever the threads do, no assertion fails but the one on a context of another thread; and with
`work_stealing` a thread may steal from one that has ended. -/
theorem worker_one_place (h : (machine T algo suspend).Reachable s) :
    (s.fault = none ∧ Sharing algo s) ∨ Fails algo s := by
  rcases Inv.of_reachable h with hfails | ⟨place, hinv⟩
  · exact .inr hfails
  · exact .inl ⟨hinv.fault, hinv.sharing h⟩

/-- One thread goes to sleep and steals the fiber that the other has created. -/
theorem worker_one_place_stolen : ∃ s : State Bool, (s.thread false).pc.taken = some (.worker 0) ∧
    ((s.fault = none ∧ Sharing .workStealing s) ∨ Fails .workStealing s) := by
  obtain ⟨s, hs, htaken⟩ : ∃ s, (machine Bool .workStealing true).exec start [.create true .post, .go true,
      .waitUntil false 7, .go false, .dispatch false 0, .go false, .go false,
      .steal false true false] = some s ∧
      (s.thread false).pc.taken = some (.worker 0) := ⟨_, rfl, rfl⟩
  exact ⟨s, htaken, worker_one_place (Machine.reachable_of_exec hs)⟩

/-- A thread whose scheduler is destroyed has no worker; those that have not ended are in the queues of ready
workers or with other threads. -/
theorem destroyed_leaves (h : (machine T algo suspend).Reachable s) (hrun : s.fault = none)
    (hdestroyed : (s.thread t).pc = .destroyed) {n : Nat} (hn : n < s.ncreated) :
    ∃ w, s.At (.worker n) w ∧ w.thread ≠ some t := by
  rcases Inv.of_reachable h with hfails | ⟨place, hinv⟩
  · exact absurd hrun hfails.fault_ne
  · refine ⟨_, hinv.at hn, ?_⟩
    have hgone := (hinv.pc hdestroyed).2 n
    cases hp : place (.worker n) with
    | taken u =>
      rw [hp] at hgone
      exact hgone
    | attached u a standing =>
      rw [hp] at hgone
      cases a with
      | true => exact hgone
      | false =>
        cases standing with
        | ending => simp [Place.whereabouts, Whereabouts.thread]
        | running | hooked link | sleeping => exact hgone
    | _ => simp [Place.whereabouts, Whereabouts.thread]

/-- The only thread ends while a fiber that has yielded is in the shared queue: the dispatcher finds no worker,
and the fiber is not resumed again. -/
theorem destroyed_leaves_yielding : ∃ s : State Unit, (s.thread ()).pc = .destroyed ∧
    s.rqueue none = [.worker 0] ∧ s.terminated (.worker 0) = false ∧
    ∃ w, s.At (.worker 0) w ∧ w.thread ≠ some () := by
  obtain ⟨s, hs, hpc, hq, hlive, hrun, hn⟩ : ∃ s, (machine Unit .sharedWork true).exec start
      [.create () .post, .go (), .destroy (), .go (), .go (), .yield (), .go (), .go (),
        .dispatch () 0] = some s ∧
      (s.thread ()).pc = .destroyed ∧ s.rqueue none = [.worker 0] ∧ s.terminated (.worker 0) = false ∧
      s.fault = none ∧ s.ncreated = 1 := ⟨_, rfl, rfl, rfl, rfl, rfl, rfl⟩
  exact ⟨s, hpc, hq, hlive, destroyed_leaves (Machine.reachable_of_exec hs) hrun hpc (by rw [hn]; decide)⟩

end Dumbo.Fiber.Threads
