import Dumbo.Fiber.ThreadPlaces

/-!
# The invariant of threads that share their work

Between its steps a thread has each of its contexts either active, or in a queue, or linked by a hook. A step
takes one context from its place to another; what the other threads know does not change.
-/

namespace Dumbo.Fiber.Threads

open Transition
open Scheduler (TimePoint timeMax Launch)

variable {T : Type} {algo : Algo} {s s' : State T} {place : CtxId T → Place T} {t u : T} {c d : CtxId T}
  {p : Place T}

/-- What the active context of a thread is about at a place of the code. -/
def PcOk (algo : Algo) (place : CtxId T → Place T) (t : T) (active : CtxId T) : ThreadPc T → Prop
  | .user | .pushing _ .user => place active = .attached t true .running
  | .picking none | .attaching _ none =>
    ∃ standing, standing ≠ .running ∧ place active = .attached t true standing
  | .picking (some r) | .attaching _ (some r) => r = active ∧ place active = .attached t true .running
  | .stealing r =>
    algo = .workStealing ∧ active = .dispatcher t ∧ r = some active ∧ place active = .attached t true .running
  | .pushing _ (.expiring _) | .expiring _ => active = .dispatcher t
  -- a thread that steals has found another thread to steal from
  | .suspended _ => active = .dispatcher t ∧ (algo = .workStealing → ∃ v, v ≠ t)
  | .destroyed => active = .main t ∧ ∀ n, (place (.worker n)).owner ≠ some t

structure ThreadOk (algo : Algo) (place : CtxId T → Place T) (t : T) (x : Thread T) : Prop where
  pc : PcOk algo place t x.active x.pc
  dispatcher : x.pc ≠ .destroyed → place (.dispatcher t) = .ready t ∨ x.active = .dispatcher t
  joining : x.shutdown → x.pc ≠ .destroyed → ∃ a, place (.main t) = .attached t a (.hooked .dispatcher)

/-- No context but `c` is between two places, and the threads other than `t` are as they should be. -/
structure OthersSettled (algo : Algo) (s : State T) (place : CtxId T → Place T) (t : T) (c : CtxId T) :
    Prop where
  others : ∀ u, u ≠ t → ThreadOk algo place u (s.thread u)
  settled : ∀ d, d ≠ c → place d ≠ .detached ∧
    ∀ u, place d = .attached u false .running → u ≠ t ∧ (s.thread u).pc = .destroyed

structure Inv (algo : Algo) (s : State T) (place : CtxId T → Place T) : Prop where
  placed : Placed s place
  thread : ∀ u, ThreadOk algo place u (s.thread u)
  settled : ∀ c, place c ≠ .detached ∧
    ∀ u, place c = .attached u false .running → (s.thread u).pc = .destroyed
  fault : s.fault = none

/-- What a step of one thread leaves as it is of another. -/
def Thread.Same (x y : Thread T) : Prop := x.active = y.active ∧ x.pc = y.pc ∧ x.shutdown = y.shutdown

theorem ThreadOk.congr {x y : Thread T} (h : ThreadOk algo place u x) (hsame : y.Same x) :
    ThreadOk algo place u y := by
  obtain ⟨hactive, hpc, hshutdown⟩ := hsame
  refine ⟨?_, ?_, ?_⟩
  · rw [hactive, hpc]
    exact h.pc
  · rw [hactive, hpc]
    exact h.dispatcher
  · rw [hshutdown, hpc]
    exact h.joining

/-! ### Assertions -/

theorem State.require_pos {p : Prop} [Decidable p] (hp : p) : s.require p = s := if_pos hp

theorem Placed.scheduler_eq (h : Placed s place) (hc : place c = p) : s.scheduler c = p.shared.scheduler :=
  congrArg Shared.scheduler (h.shared_eq hc)

theorem Placed.terminated_eq (h : Placed s place) (hc : place c = p) (hp : ¬ p.shared.terminated) :
    s.terminated c = false := by
  have hterminated := congrArg Shared.terminated (h.shared_eq hc)
  exact Bool.eq_false_iff.mpr fun ht => hp (hterminated.mp ht)

theorem Placed.not_readyLinked (h : Placed s place) (hc : ∀ u, place c ≠ .ready u) : ¬ s.ReadyLinked c := by
  rintro ⟨u, hu⟩
  exact hc u (h.of_ready hu)

theorem Placed.not_sleepLinked (h : Placed s place) (hc : ∀ u a, place c ≠ .attached u a .sleeping) :
    ¬ s.SleepLinked c := by
  rintro ⟨u, hu⟩
  obtain ⟨a, ha⟩ := h.of_sleeping hu
  exact hc u a ha

theorem Placed.not_hooked (h : Placed s place) (hc : place c = p) (hp : p.shared.hook = none) :
    s.waitHook c = none := (congrArg Shared.hook (h.shared_eq hc)).trans hp

/-- No hook links the context. -/
def Place.Free (p : Place T) : Prop := p = .detached ∨ ∃ t a, p = .attached t a .running

theorem Placed.unlinked (h : Placed s place) (hc : (place c).Free) : s.Unlinked c := by
  refine ⟨h.not_readyLinked fun u hu => ?_, h.not_sleepLinked fun u a hu => ?_, ?_, ?_⟩
  · rw [hu] at hc
    obtain hc | ⟨t, a, hc⟩ := hc <;> cases hc
  · rw [hu] at hc
    obtain hc | ⟨t, a, hc⟩ := hc <;> cases hc
  · rintro ⟨u, hu⟩
    obtain ⟨a, ha⟩ := h.of_retired hu
    rw [ha] at hc
    obtain hc | ⟨t, a, hc⟩ := hc <;> cases hc
  · obtain hc | ⟨t, a, hc⟩ := hc
    · exact h.not_hooked hc rfl
    · exact h.not_hooked hc rfl

/-! ### A context between two places -/

/-- Where `awakened` takes a context to. -/
def readied (t : T) (c : CtxId T) : Place T := if c.pinned then .ready t else .taken t

def readiedPc (c : CtxId T) (next : Next) : ThreadPc T := if c.pinned then next.pc else .pushing c next

/-- In the course of a step the thread `t` holds a context. -/
structure Holding (algo : Algo) (s : State T) (place : CtxId T → Place T) (t : T) (c : CtxId T) : Prop
    extends OthersSettled algo s place t c where
  placed : Placed s place
  held : place c = .attached t false .running
  dispatcher : c ≠ .dispatcher t → place (.dispatcher t) = .ready t ∨ (s.thread t).active = .dispatcher t
  joining : (s.thread t).shutdown → ∃ a, place (.main t) = .attached t a (.hooked .dispatcher)
  taken : (s.thread t).pc.taken = none
  fault : s.fault = none

theorem Holding.active_ne (h : Holding algo s place t c) : (s.thread t).active ≠ c := fun hactive =>
  Bool.false_ne_true ((h.placed.attached_active h.held).mpr hactive)

section Moves

variable [DecidableEq T]

theorem Placed.getScheduler (h : Placed s place) (hc : place c = p) (hp : p.shared.scheduler = some t) :
    s.getScheduler t c = s := if_pos ((h.scheduler_eq hc).trans hp)

theorem Placed.ownScheduler (h : Placed s place) (t : T) : s.ownScheduler t = s := by
  obtain ⟨standing, hactive⟩ := h.of_active t
  exact h.getScheduler hactive rfl

theorem Placed.attach_eq [Fintype T] (h : Placed s place) (hc : place c = .detached) :
    s.attach t c = (s.setScheduler c (some t)).workerLink t c := by
  have hworker : ¬ s.WorkerLinked c := by
    rintro ⟨u, hu⟩
    obtain ⟨-, a, standing, ha⟩ := h.of_worker hu
    cases hc.symm.trans ha
  rw [State.attach, h.ownScheduler]
  exact congrArg (fun s : State T => (s.setScheduler c (some t)).workerLink t c)
    (State.require_pos ⟨h.unlinked (.inl hc), hworker, h.scheduler_eq hc⟩)

theorem Placed.detach_eq [Fintype T] (h : Placed s place) (hc : place c = .attached t false .running)
    (hactive : (s.thread t).active ≠ c) (hworker : c.pinned = false) :
    s.detach t c = (s.workerUnlink c).setScheduler c none := by
  have hscheduler : s.scheduler c ≠ none := by
    rw [h.scheduler_eq hc]
    simp [Place.shared]
  rw [State.detach, State.require_pos hactive]
  simp only [if_neg hscheduler]
  rw [State.require_pos ⟨h.unlinked (.inr ⟨t, false, hc⟩), hworker⟩]

theorem ThreadOk.move {x : Thread T} (h : ThreadOk algo place u x) (hc : (place c).owner ≠ some u)
    (hp : p.owner ≠ some u) : ThreadOk algo (Function.update place c p) u x := by
  have hkeep : ∀ {d : CtxId T} {q : Place T}, place d = q → q.owner = some u →
      Function.update place c p d = q := by
    intro d q hd hq
    rw [Function.update_of_ne, hd]
    rintro rfl
    exact hc (hd ▸ hq)
  refine ⟨?_, ?_, ?_⟩
  · have hpc := h.pc
    cases hx : x.pc with
    | user =>
      rw [hx] at hpc
      exact hkeep hpc rfl
    | pushing e next =>
      rw [hx] at hpc
      cases next with
      | user => exact hkeep hpc rfl
      | expiring now => exact hpc
    | picking r | attaching e r =>
      rw [hx] at hpc
      cases r with
      | none =>
        obtain ⟨standing, hne, hactive⟩ := hpc
        exact ⟨standing, hne, hkeep hactive rfl⟩
      | some r => exact ⟨hpc.1, hkeep hpc.2 rfl⟩
    | stealing r =>
      rw [hx] at hpc
      exact ⟨hpc.1, hpc.2.1, hpc.2.2.1, hkeep hpc.2.2.2 rfl⟩
    | expiring now | suspended timePoint =>
      rw [hx] at hpc
      exact hpc
    | destroyed =>
      rw [hx] at hpc
      refine ⟨hpc.1, fun n => ?_⟩
      by_cases hn : CtxId.worker n = c
      · rwa [hn, Function.update_self]
      · rw [Function.update_of_ne hn]
        exact hpc.2 n
  · intro hlive
    exact (h.dispatcher hlive).imp_left fun hready => hkeep hready rfl
  · intro hdown hlive
    obtain ⟨a, hmain⟩ := h.joining hdown hlive
    exact ⟨a, hkeep hmain rfl⟩

theorem OthersSettled.move (h : OthersSettled algo s place t c)
    (hsame : ∀ u, u ≠ t → (s'.thread u).Same (s.thread u))
    (hc : ∀ u, u ≠ t → (place c).owner ≠ some u) (hp : ∀ u, u ≠ t → p.owner ≠ some u) :
    OthersSettled algo s' (Function.update place c p) t c := by
  refine ⟨fun u hu => ((h.others u hu).move (hc u hu) (hp u hu)).congr (hsame u hu), fun d hd => ?_⟩
  rw [Function.update_of_ne hd]
  refine ⟨(h.settled d hd).1, fun u hplace => ?_⟩
  obtain ⟨hu, hpc⟩ := (h.settled d hd).2 u hplace
  exact ⟨hu, (hsame u hu).2.1.trans hpc⟩

/-! ### A context is readied -/

section Steps

variable [Fintype T]

theorem Holding.awakened_eq (h : Holding algo s place t c) (next : Next) : s.awakened t c next =
    if c.pinned then
      s.setThread t { s.thread t with lqueue := (s.thread t).lqueue ++ [c], pc := next.pc }
    else ((s.workerUnlink c).setScheduler c none).setPc t (.pushing c next) := by
  have hready : ¬ s.ReadyLinked c := (h.placed.unlinked (.inr ⟨t, false, h.held⟩)).1
  rw [State.awakened]
  split
  · rw [State.require_pos hready]
  · rename_i hpinned
    rw [h.placed.detach_eq h.held h.active_ne (Bool.eq_false_iff.mpr hpinned)]

theorem Holding.awakened_thread (h : Holding algo s place t c) (next : Next) (u : T) :
    ((s.awakened t c next).thread u).active = (s.thread u).active ∧
      ((s.awakened t c next).thread u).shutdown = (s.thread u).shutdown ∧
      ((s.awakened t c next).thread u).pc = if u = t then readiedPc c next else (s.thread u).pc := by
  rw [h.awakened_eq, readiedPc]
  by_cases hu : u = t
  · subst hu
    by_cases hpinned : c.pinned = true
    · simp [hpinned]
    · simp [hpinned, State.setPc, State.setScheduler, State.workerUnlink]
  · by_cases hpinned : c.pinned = true
    · simp [hpinned, setThread_of_ne _ _ hu, hu]
    · simp [hpinned, State.setPc, setThread_of_ne _ _ hu, hu, State.setScheduler, State.workerUnlink]

omit [DecidableEq T] [Fintype T] in
theorem Next.taken (next : Next) : (next.pc : ThreadPc T).taken = none := by
  cases next <;> rfl

theorem Holding.awakened_placed (h : Holding algo s place t c) (next : Next) :
    Placed (s.awakened t c next) (Function.update place c (readied t c)) := by
  rw [h.awakened_eq, readied]
  split
  · rename_i hpinned
    exact h.placed.enqueue h.held hpinned (next.taken.trans h.taken.symm)
  · rename_i hpinned
    cases c with
    | worker n =>
      have htake := (h.placed.detach h.held).take (t := t) (.pushing (.worker n) next)
        (Function.update_self _ _ _) rfl h.taken
      rwa [Function.update_idem] at htake
    | main u | dispatcher u => exact absurd rfl hpinned

theorem Holding.awakened_fault (h : Holding algo s place t c) (next : Next) :
    (s.awakened t c next).fault = none := by
  rw [h.awakened_eq]
  split
  · exact h.fault
  · exact h.fault

omit [Fintype T] in
theorem PcOk.move {active : CtxId T} {pc : ThreadPc T} (h : PcOk algo place t active pc) (hne : active ≠ c)
    (hlive : pc ≠ .destroyed) : PcOk algo (Function.update place c p) t active pc := by
  have hkeep : Function.update place c p active = place active := Function.update_of_ne hne _ _
  cases pc with
  | user => exact hkeep.trans h
  | pushing e next =>
    cases next with
    | user => exact hkeep.trans h
    | expiring now => exact h
  | picking r | attaching e r =>
    cases r with
    | none =>
      obtain ⟨standing, hstanding, hactive⟩ := h
      exact ⟨standing, hstanding, hkeep.trans hactive⟩
    | some r => exact ⟨h.1, hkeep.trans h.2⟩
  | stealing r => exact ⟨h.1, h.2.1, h.2.2.1, hkeep.trans h.2.2.2⟩
  | expiring now | suspended timePoint => exact h
  | destroyed => exact absurd rfl hlive

omit [DecidableEq T] [Fintype T] in
theorem readied_cases (t : T) (c : CtxId T) : readied t c = .ready t ∨ readied t c = .taken t := by
  rw [readied]
  split
  · exact .inl rfl
  · exact .inr rfl

theorem Holding.ready (h : Holding algo s place t c) (next : Next)
    (hpc : PcOk algo place t (s.thread t).active (.pushing c next)) :
    Inv algo (s.awakened t c next) (Function.update place c (readied t c)) := by
  have hthread := h.awakened_thread next
  have hreadied := readied_cases t c
  have hlive : readiedPc c next ≠ .destroyed := by
    rw [readiedPc]
    cases next <;> split <;> simp [Next.pc]
  have hpc' : PcOk algo place t (s.thread t).active (readiedPc c next) := by
    rw [readiedPc]
    split
    · cases next <;> exact hpc
    · exact hpc
  refine ⟨h.awakened_placed next, fun u => ?_, fun d => ?_, h.awakened_fault next⟩
  · by_cases hu : u = t
    · subst hu
      obtain ⟨hactive, hshutdown, hnext⟩ := hthread u
      rw [if_pos rfl] at hnext
      refine ⟨?_, fun _ => ?_, fun hdown _ => ?_⟩
      · rw [hactive, hnext]
        exact hpc'.move h.active_ne hlive
      · rw [hactive]
        by_cases hc : CtxId.dispatcher u = c
        · subst hc
          exact .inl (Function.update_self _ _ _)
        · rw [Function.update_of_ne hc]
          exact h.dispatcher (Ne.symm hc)
      · rw [hshutdown] at hdown
        obtain ⟨a, hmain⟩ := h.joining hdown
        refine ⟨a, ?_⟩
        rw [Function.update_of_ne, hmain]
        rintro rfl
        cases h.held.symm.trans hmain
    · have hother := (h.others u hu).move (c := c) (p := readied t c)
        (by rw [h.held]; exact fun hut => hu (Option.some.inj hut).symm)
        (by rcases hreadied with hr | hr <;> rw [hr] <;> exact fun hut => hu (Option.some.inj hut).symm)
      obtain ⟨hactive, hshutdown, hnext⟩ := hthread u
      rw [if_neg hu] at hnext
      exact hother.congr ⟨hactive, hnext, hshutdown⟩
  · by_cases hd : d = c
    · subst hd
      rw [Function.update_self]
      rcases hreadied with hr | hr <;> rw [hr] <;> exact ⟨by simp, by simp⟩
    · rw [Function.update_of_ne hd]
      obtain ⟨hdetached, hrunning⟩ := h.settled d hd
      refine ⟨hdetached, fun u hplace => ?_⟩
      obtain ⟨hu, hpc⟩ := hrunning u hplace
      rw [(hthread u).2.2, if_neg hu]
      exact hpc

theorem Holding.setReady_eq (h : Holding algo s place t c) : s.setReady t c = s.awakened t c .user := by
  obtain ⟨hready, hsleep, -⟩ := h.placed.unlinked (.inr ⟨t, false, h.held⟩)
  have hlive : s.terminated c = false := h.placed.terminated_eq h.held (by simp [Place.shared])
  rw [State.setReady, State.require_pos hlive]
  rw [sleepUnlink_eq hsleep, readyUnlink_eq hready]

/-! ### The switch -/

omit [Fintype T] in
theorem Holding.switch_rest (h : Holding algo s place t c) {standing : Standing}
    (hactive : place (s.thread t).active = .attached t true standing) :
    OthersSettled algo (s.setActive t c) (Function.update (Function.update place (s.thread t).active
      (.attached t false standing)) c (.attached t true .running)) t (s.thread t).active := by
  have hother : ∀ {u}, u ≠ t → some t ≠ some u := fun hu hut => hu (Option.some.inj hut).symm
  refine ⟨fun u hu => ?_, fun d hd => ?_⟩
  · have hthread := (h.others u hu).move (c := (s.thread t).active) (p := .attached t false standing)
      (by rw [hactive]; exact hother hu) (hother hu)
    have hmoved := hthread.move (c := c) (p := .attached t true .running) (by
      rw [Function.update_of_ne (Ne.symm h.active_ne), h.held]
      exact hother hu) (hother hu)
    apply hmoved.congr
    rw [State.setActive, setThread_of_ne _ _ hu]
    exact ⟨rfl, rfl, rfl⟩
  · by_cases hc : d = c
    · subst hc
      rw [Function.update_self]
      exact ⟨by simp, fun u hu => by cases hu⟩
    · rw [Function.update_of_ne hc, Function.update_of_ne hd]
      obtain ⟨hdetached, hrunning⟩ := h.settled d hc
      refine ⟨hdetached, fun u hplace => ?_⟩
      obtain ⟨hu, hpc⟩ := hrunning u hplace
      refine ⟨hu, ?_⟩
      rwa [State.setActive, setThread_of_ne _ _ hu]

/-- What the switch leaves of the places. -/
def switched (s : State T) (place : CtxId T → Place T) (t : T) (c : CtxId T) (standing : Standing) :
    CtxId T → Place T :=
  Function.update (Function.update place (s.thread t).active (.attached t false standing)) c
    (.attached t true .running)

omit [Fintype T] in
theorem Holding.switched_held (h : Holding algo s place t c) (standing : Standing) :
    switched s place t c standing (s.thread t).active = .attached t false standing := by
  rw [switched, Function.update_of_ne h.active_ne, Function.update_self]

omit [Fintype T] in
theorem Holding.switched_dispatcher (h : Holding algo s place t c) (standing : Standing)
    (hne : (s.thread t).active ≠ .dispatcher t) :
    switched s place t c standing (.dispatcher t) = .ready t ∨ c = .dispatcher t := by
  by_cases hc : c = .dispatcher t
  · exact .inr hc
  · rw [switched, Function.update_of_ne (Ne.symm hc), Function.update_of_ne (Ne.symm hne)]
    exact (h.dispatcher hc).imp_right fun hactive => absurd hactive hne

omit [Fintype T] in
theorem Holding.switched_joining (h : Holding algo s place t c) {standing : Standing}
    (hactive : place (s.thread t).active = .attached t true standing) (hdown : (s.thread t).shutdown) :
    ∃ a, switched s place t c standing (.main t) = .attached t a (.hooked .dispatcher) := by
  obtain ⟨a, hmain⟩ := h.joining hdown
  have hc : CtxId.main t ≠ c := by
    rintro rfl
    cases h.held.symm.trans hmain
  rw [switched, Function.update_of_ne hc]
  by_cases hm : CtxId.main t = (s.thread t).active
  · rw [← hm] at hactive ⊢
    obtain rfl : standing = .hooked .dispatcher := by
      cases hactive.symm.trans hmain
      rfl
    exact ⟨false, Function.update_self _ _ _⟩
  · rw [Function.update_of_ne hm]
    exact ⟨a, hmain⟩

omit [Fintype T] in
theorem setActive_thread (s : State T) (t : T) (c : CtxId T) :
    (s.setActive t c).thread t = { s.thread t with active := c } := setThread_self _ _ _

omit [Fintype T] in
/-- The thread has switched, and holds the context that was active. -/
theorem Holding.switch (h : Holding algo s place t c)
    (hactive : place (s.thread t).active = .attached t true .running) :
    Holding algo (s.setActive t c) (switched s place t c .running) t (s.thread t).active := by
  refine { h.switch_rest hactive with
    placed := h.placed.switch hactive h.held
    held := h.switched_held _
    dispatcher := fun hne => ?_
    joining := fun hdown => ?_
    taken := ?_
    fault := h.fault }
  · rw [setActive_thread]
    exact h.switched_dispatcher _ hne
  · rw [setActive_thread] at hdown
    exact h.switched_joining hactive hdown
  · rw [setActive_thread]
    exact h.taken

theorem Holding.resume_ready (h : Holding algo s place t c)
    (hactive : place (s.thread t).active = .attached t true .running) :
    Inv algo (s.resume t c (some (s.thread t).active)) (Function.update (switched s place t c .running)
      (s.thread t).active (readied t (s.thread t).active)) := by
  have hholds := h.switch hactive
  simp only [State.resume]
  rw [hholds.placed.ownScheduler, hholds.setReady_eq]
  apply hholds.ready
  rw [setActive_thread]
  exact Function.update_self _ _ _

omit [Fintype T] in
theorem setPc_thread (s : State T) (t : T) (pc : ThreadPc T) :
    (s.setPc t pc).thread t = { s.thread t with pc := pc } := setThread_self _ _ _

omit [Fintype T] in
theorem setPc_same (s : State T) (pc : ThreadPc T) (hu : u ≠ t) :
    ((s.setPc t pc).thread u).Same (s.thread u) := by
  rw [State.setPc, setThread_of_ne _ _ hu]
  exact ⟨rfl, rfl, rfl⟩

theorem Holding.resume_waits (h : Holding algo s place t c) {standing : Standing}
    (hstanding : standing ≠ .running) (hactive : place (s.thread t).active = .attached t true standing) :
    Inv algo (s.resume t c none) (switched s place t c standing) := by
  have hrest := h.switch_rest hactive
  have hplaced := h.placed.switch hactive h.held
  have hne : (s.thread t).active ≠ .dispatcher t := by
    intro hd
    rw [hd] at hactive
    exact hstanding (h.placed.allowed hactive).2
  simp only [State.resume]
  refine ⟨hplaced.setPc ?_, fun u => ?_, fun d => ?_, h.fault⟩
  · rw [setActive_thread]
    exact h.taken.symm
  · by_cases hu : u = t
    · subst hu
      rw [setPc_thread, setActive_thread]
      exact ⟨Function.update_self _ _ _, fun _ => h.switched_dispatcher standing hne,
        fun hdown _ => h.switched_joining hactive hdown⟩
    · exact (hrest.others u hu).congr (setPc_same _ _ hu)
  · by_cases hd : d = (s.thread t).active
    · have hheld := h.switched_held standing
      rw [← hd] at hheld
      rw [hheld]
      refine ⟨by simp, fun u hrunning => ?_⟩
      cases hrunning
      exact absurd rfl hstanding
    · obtain ⟨hdetached, hrunning⟩ := hrest.settled d hd
      refine ⟨hdetached, fun u hplace => ?_⟩
      obtain ⟨hu, hpc⟩ := hrunning u hplace
      exact (setPc_same _ _ hu).2.1.trans hpc

end Steps

end Moves

end Dumbo.Fiber.Threads
