import Dumbo.Fiber.Threads
import Mathlib.Data.List.Perm.Basic

/-!
# Where the contexts of several threads are

A context has one place, and its place says which queues, which thread and which hooks know of it.
-/

namespace Dumbo.Fiber.Threads

open Scheduler (TimePoint timeMax Launch)

variable {T : Type}

/-- What a context with a scheduler is about. -/
inductive Standing
  | running
  | hooked (link : Link)
  | sleeping
  | ending
  deriving DecidableEq

inductive Place (T : Type)
  | fresh
  | queued (q : Option T)
  /-- between two queues, in the course of a step -/
  | detached
  /-- out of a queue of ready workers, or on the way into one -/
  | taken (t : T)
  | ready (t : T)
  | attached (t : T) (active : Bool) (standing : Standing)
  | released (t : T)

/-- What one thread knows of a context. -/
@[ext]
structure Local where
  taken : Prop
  ready : Prop
  active : Prop
  worker : Prop
  sleeping : Prop
  retired : Prop

/-- What is known of a context apart from the threads. -/
structure Shared (T : Type) where
  created : Prop
  queued : Option T → Prop
  scheduler : Option T
  hook : Option Link
  terminated : Prop

/-- The context that the thread holds while no queue and no scheduler does. -/
def ThreadPc.taken : ThreadPc T → Option (CtxId T)
  | .attaching ctx _ | .pushing ctx _ => some ctx
  | _ => none

def Thread.local (x : Thread T) (c : CtxId T) : Local where
  taken := x.pc.taken = some c
  ready := c ∈ x.lqueue
  active := x.active = c
  worker := c ∈ x.workerQueue
  sleeping := c ∈ x.sleepQueue
  retired := c ∈ x.terminatedQueue

def State.Created (s : State T) : CtxId T → Prop
  | .worker n => n < s.ncreated
  | _ => True

def State.shared (s : State T) (c : CtxId T) : Shared T where
  created := s.Created c
  queued q := c ∈ s.rqueue q
  scheduler := s.scheduler c
  hook := s.waitHook c
  terminated := s.terminated c = true

def Standing.hook : Standing → Option Link
  | .hooked link => some link
  | _ => none

def Place.shared : Place T → Shared T
  | .fresh => ⟨False, fun _ => False, none, none, False⟩
  | .queued q => ⟨True, (q = ·), none, none, False⟩
  | .detached | .taken _ => ⟨True, fun _ => False, none, none, False⟩
  | .ready t => ⟨True, fun _ => False, some t, none, False⟩
  | .attached t _ standing => ⟨True, fun _ => False, some t, standing.hook, standing = .ending⟩
  | .released t => ⟨True, fun _ => False, some t, none, True⟩

def nowhere : Local := ⟨False, False, False, False, False, False⟩

def attachedLocal (c : CtxId T) (active : Bool) (standing : Standing) : Local where
  taken := False
  ready := False
  active := active = true
  worker := c.pinned = false
  sleeping := standing = .sleeping
  retired := standing = .ending

/-- The thread that knows of a context at the place. -/
def Place.owner : Place T → Option T
  | .taken t | .ready t | .attached t _ _ => some t
  | _ => none

def Place.own (c : CtxId T) : Place T → Local
  | .taken _ => { nowhere with taken := True }
  | .ready _ => { nowhere with ready := True }
  | .attached _ active standing => attachedLocal c active standing
  | _ => nowhere

/-- The workers are in the queues of ready workers, the main context and the dispatcher in the queue of their
thread. -/
def Place.Allows : CtxId T → Place T → Prop
  | .main u, .ready t => u = t
  | .main u, .attached t _ standing => u = t ∧ standing ≠ .ending
  | .dispatcher u, .ready t => u = t
  | .dispatcher u, .attached t _ standing => u = t ∧ standing = .running
  | .worker _, .ready _ => False
  | .worker _, _ => True
  | _, _ => False

structure Lists (x : Thread T) : Prop where
  ready : x.lqueue.Nodup
  worker : x.workerQueue.Nodup
  sleeping : x.sleepQueue.Nodup
  retired : x.terminatedQueue.Nodup

structure Placed (s : State T) (place : CtxId T → Place T) : Prop where
  shared : ∀ c, s.shared c = (place c).shared
  own : ∀ c u, (place c).owner = some u → (s.thread u).local c = (place c).own c
  other : ∀ c u, (place c).owner ≠ some u → (s.thread u).local c = nowhere
  allows : ∀ c, (place c).Allows c
  nodup : ∀ q, (s.rqueue q).Nodup
  lists : ∀ u, Lists (s.thread u)

variable {s : State T} {place : CtxId T → Place T} {t : T} {c d : CtxId T} {p q : Place T}

theorem Placed.shared_eq (h : Placed s place) (hc : place c = p) : s.shared c = p.shared := hc ▸ h.shared c

theorem Placed.allowed (h : Placed s place) (hc : place c = p) : p.Allows c := hc ▸ h.allows c

theorem Placed.own_eq (h : Placed s place) (hc : place c = p) (ht : p.owner = some t) :
    (s.thread t).local c = p.own c := by
  subst hc
  exact h.own c t ht

theorem Placed.local_nowhere (h : Placed s place) (hc : place c = p) (ht : p.owner ≠ some t) :
    (s.thread t).local c = nowhere := by
  subst hc
  exact h.other c t ht

theorem Place.unowned (hp : p.owner = none) (u : T) : p.owner ≠ some u := by
  rw [hp]
  simp

theorem Placed.away (h : Placed s place) (hc : place c = p) (hp : p.owner = none) (t : T) :
    (s.thread t).local c = nowhere := h.local_nowhere hc (Place.unowned hp t)

/-! ### The place of a context that a queue, a thread or a hook knows -/

theorem Placed.of_queued (h : Placed s place) {r : Option T} (hc : c ∈ s.rqueue r) : place c = .queued r := by
  have hqueued : (c ∈ s.rqueue r) = (place c).shared.queued r :=
    congrFun (congrArg Shared.queued (h.shared c)) r
  cases hp : place c <;> simp_all [Place.shared]

theorem Placed.of_fresh (h : Placed s place) (hc : ¬ s.Created c) : place c = .fresh := by
  have hcreated : s.Created c = (place c).shared.created := congrArg Shared.created (h.shared c)
  cases hp : place c <;> simp_all [Place.shared]

theorem Placed.of_hook (h : Placed s place) {link : Link} (hc : s.waitHook c = some link) :
    ∃ u a, place c = .attached u a (.hooked link) := by
  have hhook : s.waitHook c = (place c).shared.hook := congrArg Shared.hook (h.shared c)
  cases hp : place c with
  | attached u a standing => cases standing <;> simp_all [Place.shared, Standing.hook]
  | _ => simp_all [Place.shared]

theorem Placed.known (h : Placed s place) {l : Local} (hl : (s.thread t).local c = l) (hknown : l ≠ nowhere) :
    (place c = .taken t ∧ l = { nowhere with taken := True }) ∨
    (place c = .ready t ∧ l = { nowhere with ready := True }) ∨
    ∃ a standing, place c = .attached t a standing ∧ l = attachedLocal c a standing := by
  subst hl
  have howner : (place c).owner = some t := by
    by_contra hne
    exact hknown (h.other c t hne)
  have hown := h.own c t howner
  cases hp : place c with
  | taken u | ready u | attached u a standing =>
    rw [hp] at howner hown
    obtain rfl : u = t := Option.some.inj howner
    rw [hown]
    simp [Place.own]
  | _ =>
    rw [hp] at howner
    cases howner

theorem Placed.of_ready (h : Placed s place) (hc : c ∈ (s.thread t).lqueue) : place c = .ready t := by
  obtain ⟨l, hl⟩ : ∃ l, (s.thread t).local c = l := ⟨_, rfl⟩
  have hready : l.ready := hl ▸ hc
  rcases h.known hl (by rintro rfl; exact hready) with ⟨-, rfl⟩ | ⟨hp, -⟩ | ⟨a, standing, -, rfl⟩
  · cases hready
  · exact hp
  · cases hready

theorem Placed.of_taken (h : Placed s place) (hc : (s.thread t).pc.taken = some c) : place c = .taken t := by
  obtain ⟨l, hl⟩ : ∃ l, (s.thread t).local c = l := ⟨_, rfl⟩
  have htaken : l.taken := hl ▸ hc
  rcases h.known hl (by rintro rfl; exact htaken) with ⟨hp, -⟩ | ⟨-, rfl⟩ | ⟨a, standing, -, rfl⟩
  · exact hp
  · cases htaken
  · cases htaken

theorem Placed.of_attached (h : Placed s place)
    (hc : (s.thread t).active = c ∨ c ∈ (s.thread t).workerQueue ∨ c ∈ (s.thread t).sleepQueue ∨
      c ∈ (s.thread t).terminatedQueue) :
    ∃ a standing, place c = .attached t a standing ∧ (s.thread t).local c = attachedLocal c a standing := by
  obtain ⟨l, hl⟩ : ∃ l, (s.thread t).local c = l := ⟨_, rfl⟩
  have hattached : l.active ∨ l.worker ∨ l.sleeping ∨ l.retired := hl ▸ hc
  rcases h.known hl (by rintro rfl; simp [nowhere] at hattached) with ⟨-, rfl⟩ | ⟨-, rfl⟩ | hattached
  · simp [nowhere] at hattached
  · simp [nowhere] at hattached
  · rw [hl]
    exact hattached

theorem Placed.of_active (h : Placed s place) (t : T) :
    ∃ standing, place (s.thread t).active = .attached t true standing := by
  obtain ⟨a, standing, hp, hl⟩ := h.of_attached (t := t) (.inl rfl)
  have hactive : (attachedLocal (s.thread t).active a standing).active := hl ▸ (rfl : (s.thread t).active = _)
  obtain rfl : a = true := hactive
  exact ⟨standing, hp⟩

theorem Placed.of_sleeping (h : Placed s place) (hc : c ∈ (s.thread t).sleepQueue) :
    ∃ a, place c = .attached t a .sleeping := by
  obtain ⟨a, standing, hp, hl⟩ := h.of_attached (.inr (.inr (.inl hc)))
  have hsleeping : ((s.thread t).local c).sleeping := hc
  rw [hl] at hsleeping
  obtain rfl : standing = .sleeping := hsleeping
  exact ⟨a, hp⟩

theorem Placed.of_retired (h : Placed s place) (hc : c ∈ (s.thread t).terminatedQueue) :
    ∃ a, place c = .attached t a .ending := by
  obtain ⟨a, standing, hp, hl⟩ := h.of_attached (.inr (.inr (.inr hc)))
  have hretired : ((s.thread t).local c).retired := hc
  rw [hl] at hretired
  obtain rfl : standing = .ending := hretired
  exact ⟨a, hp⟩

theorem Placed.of_worker (h : Placed s place) (hc : c ∈ (s.thread t).workerQueue) :
    c.pinned = false ∧ ∃ a standing, place c = .attached t a standing := by
  obtain ⟨a, standing, hp, hl⟩ := h.of_attached (.inr (.inl hc))
  have hworker : ((s.thread t).local c).worker := hc
  rw [hl] at hworker
  exact ⟨hworker, a, standing, hp⟩

theorem Placed.attached_active (h : Placed s place) {a : Bool} {standing : Standing}
    (hc : place c = .attached t a standing) : a = true ↔ (s.thread t).active = c := by
  have hlocal := congrArg Local.active (h.own_eq hc rfl)
  exact (iff_of_eq hlocal).symm

/-! ### Moves -/

section Moves

variable [DecidableEq T]

/-- One context changes its place. -/
theorem Placed.move (h : Placed s place) {s' : State T} (hshared : s'.shared c = p.shared)
    (hown : ∀ u, p.owner = some u → (s'.thread u).local c = p.own c)
    (hother : ∀ u, p.owner ≠ some u → (s'.thread u).local c = nowhere)
    (hrest : ∀ d, d ≠ c → s'.shared d = s.shared d ∧ ∀ u, (s'.thread u).local d = (s.thread u).local d)
    (hallows : p.Allows c) (hnodup : ∀ q, (s'.rqueue q).Nodup) (hlists : ∀ u, Lists (s'.thread u)) :
    Placed s' (Function.update place c p) := by
  refine ⟨fun d => ?_, fun d u => ?_, fun d u => ?_, fun d => ?_, hnodup, hlists⟩
  all_goals by_cases hd : d = c
  · subst hd
    rwa [Function.update_self]
  · rw [Function.update_of_ne hd, (hrest d hd).1]
    exact h.shared d
  · subst hd
    rw [Function.update_self]
    exact hown u
  · rw [Function.update_of_ne hd, (hrest d hd).2]
    exact h.own d u
  · subst hd
    rw [Function.update_self]
    exact hother u
  · rw [Function.update_of_ne hd, (hrest d hd).2]
    exact h.other d u
  · subst hd
    rwa [Function.update_self]
  · rw [Function.update_of_ne hd]
    exact h.allows d

omit [DecidableEq T] in
theorem Placed.same (h : Placed s place) {s' : State T} (hshared : ∀ d, s'.shared d = s.shared d)
    (hlocal : ∀ d u, (s'.thread u).local d = (s.thread u).local d) (hnodup : ∀ q, (s'.rqueue q).Nodup)
    (hlists : ∀ u, Lists (s'.thread u)) : Placed s' place :=
  ⟨fun d => (hshared d).trans (h.shared d), fun d u hu => (hlocal d u).trans (h.own d u hu),
    fun d u hu => (hlocal d u).trans (h.other d u hu), h.allows, hnodup, hlists⟩

@[simp]
theorem setThread_self (s : State T) (t : T) (x : Thread T) : (s.setThread t x).thread t = x :=
  Function.update_self _ _ _

theorem setThread_of_ne (s : State T) (x : Thread T) {u : T} (hu : u ≠ t) :
    (s.setThread t x).thread u = s.thread u := Function.update_of_ne hu _ _

theorem lists_setThread (h : ∀ u, Lists (s.thread u)) {x : Thread T} (hx : Lists x) (u : T) :
    Lists ((s.setThread t x).thread u) := by
  by_cases hu : u = t
  · subst hu
    rwa [setThread_self]
  · rw [setThread_of_ne s x hu]
    exact h u

theorem Placed.setThread (h : Placed s place) {x : Thread T} (hshared : s.shared c = p.shared)
    (hown : x.local c = if p.owner = some t then p.own c else nowhere)
    (hbefore : ∀ u, (place c).owner = some u → u = t) (hafter : ∀ u, p.owner = some u → u = t)
    (hrest : ∀ d, d ≠ c → x.local d = (s.thread t).local d) (hallows : p.Allows c) (hx : Lists x) :
    Placed (s.setThread t x) (Function.update place c p) := by
  refine h.move hshared (fun u hu => ?_) (fun u hu => ?_) (fun d hd => ⟨rfl, fun u => ?_⟩) hallows h.nodup
    (lists_setThread h.lists hx)
  · obtain rfl := hafter u hu
    rw [setThread_self, hown, if_pos hu]
  · by_cases ht : u = t
    · subst ht
      rw [setThread_self, hown, if_neg hu]
    · rw [setThread_of_ne s x ht]
      exact h.other c u fun howner => ht (hbefore u howner)
  · by_cases ht : u = t
    · subst ht
      rw [setThread_self, hrest d hd]
    · rw [setThread_of_ne s x ht]

theorem Placed.sameThread (h : Placed s place) {x : Thread T} (hx : ∀ d, x.local d = (s.thread t).local d)
    (hlists : Lists x) : Placed (s.setThread t x) place := by
  refine h.same (fun _ => rfl) (fun d u => ?_) h.nodup (lists_setThread h.lists hlists)
  by_cases hu : u = t
  · subst hu
    rw [setThread_self, hx]
  · rw [setThread_of_ne s x hu]

theorem Placed.setQueue (h : Placed s place) {r : Option T} {l : List (CtxId T)}
    (hshared : (s.setQueue r l).shared c = p.shared) (hc : (place c).owner = none) (hp : p.owner = none)
    (hrest : ∀ d, d ≠ c → (d ∈ l ↔ d ∈ s.rqueue r)) (hallows : p.Allows c) (hl : l.Nodup) :
    Placed (s.setQueue r l) (Function.update place c p) := by
  refine h.move hshared (fun u hu => ?_) (fun u _ => ?_) (fun d hd => ⟨?_, fun _ => rfl⟩) hallows
    (fun q => ?_) h.lists
  · cases hp.symm.trans hu
  · exact h.other c u (by rw [hc]; simp)
  · simp only [State.shared, State.setQueue, Shared.mk.injEq, and_true]
    refine ⟨rfl, funext fun q => ?_⟩
    by_cases hq : q = r
    · subst hq
      rw [Function.update_self]
      exact propext (hrest d hd)
    · rw [Function.update_of_ne hq]
  · simp only [State.setQueue]
    by_cases hq : q = r
    · subst hq
      rwa [Function.update_self]
    · rw [Function.update_of_ne hq]
      exact h.nodup q

theorem Placed.pop (h : Placed s place) {r : Option T} {rest : List (CtxId T)}
    (hr : s.rqueue r = c :: rest) :
    place c = .queued r ∧ Placed (s.setQueue r rest) (Function.update place c .detached) := by
  have hc : place c = .queued r := h.of_queued (by rw [hr]; exact List.mem_cons_self)
  have hnodup := h.nodup r
  rw [hr, List.nodup_cons] at hnodup
  have hshared := h.shared_eq hc
  refine ⟨hc, h.setQueue ?_ (by rw [hc]; rfl) rfl (fun d hd => ?_) ?_ hnodup.2⟩
  · simp only [State.shared, State.setQueue, Place.shared, Shared.mk.injEq] at hshared ⊢
    refine ⟨hshared.1, funext fun q => eq_false ?_, hshared.2.2⟩
    by_cases hq : q = r
    · subst hq
      rw [Function.update_self]
      exact hnodup.1
    · rw [Function.update_of_ne hq]
      intro hmem
      have hother := hc.symm.trans (h.of_queued hmem)
      exact hq (Place.queued.inj hother).symm
  · rw [hr, List.mem_cons]
    simp only [hd, false_or]
  · have hallowed := h.allowed hc
    cases c <;> exact hallowed

theorem Placed.push (h : Placed s place) (r : Option T) (hc : place c = .detached) :
    Placed (s.setQueue r (s.rqueue r ++ [c])) (Function.update place c (.queued r)) := by
  have hnot : ∀ q, c ∉ s.rqueue q := by
    intro q hmem
    cases hc.symm.trans (h.of_queued hmem)
  have hshared := h.shared_eq hc
  refine h.setQueue ?_ (by rw [hc]; rfl) rfl (fun d hd => ?_) ?_ 
    (List.nodup_append_comm.mp (List.Nodup.cons (hnot r) (h.nodup r)))
  · simp only [State.shared, State.setQueue, Place.shared, Shared.mk.injEq] at hshared ⊢
    refine ⟨hshared.1, funext fun q => propext ?_, hshared.2.2⟩
    by_cases hq : q = r
    · subst hq
      simp only [Function.update_self, List.mem_append, List.mem_singleton, or_true]
    · rw [Function.update_of_ne hq]
      exact iff_of_false (hnot q) (Ne.symm hq)
  · simp only [List.mem_append, List.mem_singleton, hd, or_false]
  · have hallowed := h.allowed hc
    cases c <;> exact hallowed

omit [DecidableEq T] in
theorem Lists.setPc {x : Thread T} (h : Lists x) (pc : ThreadPc T) : Lists { x with pc := pc } := { h with }

theorem Placed.setPc (h : Placed s place) {pc : ThreadPc T} (hpc : pc.taken = (s.thread t).pc.taken) :
    Placed (s.setPc t pc) place := by
  apply h.sameThread _ ((h.lists t).setPc pc)
  intro d
  simp only [Thread.local, hpc]

theorem Placed.take (h : Placed s place) (pc : ThreadPc T) (hc : place c = .detached)
    (hpc : pc.taken = some c) (hnone : (s.thread t).pc.taken = none) :
    Placed (s.setPc t pc) (Function.update place c (.taken t)) := by
  have hlocal := h.away hc rfl t
  refine h.setThread (h.shared_eq hc :) ?_ (by simp [hc, Place.owner]) (by simp [Place.owner]) ?_ ?_
    ((h.lists t).setPc pc)
  · simp_all [Thread.local, Place.owner, Place.own, nowhere]
  · intro d hd
    simp [Thread.local, hpc, hnone, Ne.symm hd]
  · have hallowed := h.allowed hc
    cases c <;> exact hallowed

theorem Placed.untake (h : Placed s place) (pc : ThreadPc T) (htaken : (s.thread t).pc.taken = some c)
    (hpc : pc.taken = none) : Placed (s.setPc t pc) (Function.update place c .detached) := by
  have hc := h.of_taken htaken
  have hlocal := h.own_eq hc rfl
  refine h.setThread (h.shared_eq hc :) ?_ (by simp [hc, Place.owner]) (by simp [Place.owner]) ?_ ?_
    ((h.lists t).setPc pc)
  · simp_all [Thread.local, Place.owner, Place.own, nowhere]
  · intro d hd
    simp [Thread.local, hpc, htaken, Ne.symm hd]
  · have hallowed := h.allowed hc
    cases c <;> exact hallowed

omit [DecidableEq T] in
theorem Place.Allows.worker {n : Nat} (hp : ∀ u, p ≠ .ready u) : p.Allows (.worker n : CtxId T) := by
  cases p with
  | ready u => exact hp u rfl
  | _ => trivial

omit [DecidableEq T] in
theorem Placed.detached_worker (h : Placed s place) (hc : place c = .detached) : ∃ n, c = .worker n := by
  have hallowed := h.allowed hc
  cases c with
  | worker n => exact ⟨n, rfl⟩
  | main u | dispatcher u => cases hallowed

theorem Placed.attach (h : Placed s place) (hc : place c = .detached) :
    Placed ((s.setScheduler c (some t)).workerLink t c)
      (Function.update place c (.attached t false .running)) := by
  obtain ⟨n, rfl⟩ := h.detached_worker hc
  have hlocal := h.away hc rfl t
  have hshared := h.shared_eq hc
  have hnot : CtxId.worker n ∉ (s.thread t).workerQueue := (congrArg Local.worker hlocal).mp
  refine h.move ?_ (fun u hu => ?_) (fun u hu => ?_) (fun d hd => ⟨?_, fun u => ?_⟩) trivial h.nodup
    (lists_setThread h.lists
      { h.lists t with worker := List.nodup_append_comm.mp (List.Nodup.cons hnot (h.lists t).worker) })
  · simp_all [State.shared, State.workerLink, State.setThread, State.setScheduler, Place.shared, Standing.hook,
      State.Created]
  · obtain rfl : t = u := Option.some.inj hu
    simp_all [State.workerLink, State.setScheduler, Thread.local, Place.own, attachedLocal, nowhere,
      CtxId.pinned]
  · have hne : u ≠ t := fun hut => hu (congrArg some hut.symm)
    rw [State.workerLink, setThread_of_ne _ _ hne]
    exact h.away hc rfl u
  · simp [State.shared, State.workerLink, State.setThread, State.setScheduler, hd, State.Created]
  · by_cases hu : u = t
    · subst hu
      simp [State.workerLink, State.setScheduler, Thread.local, hd]
    · rw [State.workerLink, setThread_of_ne _ _ hu]
      rfl

theorem Placed.detach (h : Placed s place) {n : Nat} (hc : place (.worker n) = .attached t false .running) :
    Placed ((s.workerUnlink (.worker n)).setScheduler (.worker n) none)
      (Function.update place (.worker n) .detached) := by
  have hshared := h.shared_eq hc
  refine h.move ?_ (fun u hu => absurd hu (Place.unowned rfl u)) (fun u _ => ?_)
    (fun d hd => ⟨?_, fun u => ?_⟩) trivial h.nodup
    fun u => { h.lists u with worker := (h.lists u).worker.erase _ }
  · simp_all [State.shared, State.workerUnlink, State.setScheduler, Place.shared, Standing.hook, State.Created]
  · have hnot : CtxId.worker n ∉ (s.thread u).workerQueue.erase (.worker n) := (h.lists u).worker.not_mem_erase
    by_cases hu : u = t
    · subst hu
      have hlocal := h.own_eq hc rfl
      simp_all [State.workerUnlink, State.setScheduler, Thread.local, Place.own, attachedLocal, nowhere]
    · have hlocal := h.local_nowhere (t := u) hc fun hut => hu (Option.some.inj hut).symm
      simp_all [State.workerUnlink, State.setScheduler, Thread.local, nowhere]
  · simp [State.shared, State.workerUnlink, State.setScheduler, hd, State.Created]
  · simp [State.workerUnlink, State.setScheduler, Thread.local, List.mem_erase_of_ne hd]

theorem Placed.switched (h : Placed s place) {place' : CtxId T → Place T} {standing standing' : Standing}
    (hactive : place (s.thread t).active = .attached t true standing)
    (hc : place c = .attached t false standing')
    (hcases : ∀ d, (d = c ∧ place' d = .attached t true standing') ∨
      (d = (s.thread t).active ∧ place' d = .attached t false standing) ∨
      (d ≠ c ∧ d ≠ (s.thread t).active ∧ place' d = place d)) : Placed (s.setActive t c) place' := by
  have hne : c ≠ (s.thread t).active := by
    rintro rfl
    cases hactive.symm.trans hc
  have hself : ∀ d, ((s.setActive t c).thread t).local d = { (s.thread t).local d with active := c = d } := by
    intro d
    rw [State.setActive, setThread_self]
    rfl
  have hsame : ∀ d, d ≠ c → d ≠ (s.thread t).active →
      ∀ u, ((s.setActive t c).thread u).local d = (s.thread u).local d := by
    intro d hd hd' u
    by_cases hu : u = t
    · subst hu
      rw [hself]
      simp [Thread.local, Ne.symm hd, Ne.symm hd']
    · rw [State.setActive, setThread_of_ne s _ hu]
  have haway : ∀ {d u p}, place d = p → some t ≠ some u → p.owner = some t →
      ((s.setActive t c).thread u).local d = nowhere := by
    intro d u p hd hu howner
    rw [State.setActive, setThread_of_ne s _ fun hut => hu (congrArg some hut.symm)]
    exact h.local_nowhere hd (howner ▸ hu)
  refine ⟨fun d => ?_, fun d u => ?_, fun d u => ?_, fun d => ?_, h.nodup,
    lists_setThread h.lists { h.lists t with }⟩
  all_goals rcases hcases d with ⟨rfl, hp⟩ | ⟨rfl, hp⟩ | ⟨hd, hd', hp⟩
  all_goals rw [hp]
  · exact (h.shared_eq hc :)
  · exact (h.shared_eq hactive :)
  · exact h.shared d
  · intro hu
    obtain rfl : t = u := Option.some.inj hu
    rw [hself, h.own_eq hc rfl]
    simp [Place.own, attachedLocal]
  · intro hu
    obtain rfl : t = u := Option.some.inj hu
    rw [hself, h.own_eq hactive rfl]
    simp [Place.own, attachedLocal, hne]
  · rw [hsame d hd hd' u]
    exact h.own d u
  · exact fun hu => haway hc hu rfl
  · exact fun hu => haway hactive hu rfl
  · rw [hsame d hd hd' u]
    exact h.other d u
  · have hallowed := h.allowed hc
    cases d <;> exact hallowed
  · have hallowed := h.allowed hactive
    generalize (s.thread t).active = d at hallowed
    cases d <;> exact hallowed
  · exact h.allows d

theorem Placed.switch (h : Placed s place) {standing standing' : Standing}
    (hactive : place (s.thread t).active = .attached t true standing)
    (hc : place c = .attached t false standing') :
    Placed (s.setActive t c) (Function.update
      (Function.update place (s.thread t).active (.attached t false standing)) c
      (.attached t true standing')) := by
  apply h.switched hactive hc
  intro d
  by_cases hd : d = c
  · exact .inl ⟨hd, by rw [hd, Function.update_self]⟩
  · rw [Function.update_of_ne hd]
    by_cases hd' : d = (s.thread t).active
    · exact .inr (.inl ⟨hd', by rw [hd', Function.update_self]⟩)
    · exact .inr (.inr ⟨hd, hd', Function.update_of_ne hd' _ _⟩)

theorem Placed.enqueue (h : Placed s place) (hc : place c = .attached t false .running) (hpinned : c.pinned)
    {pc : ThreadPc T} (hpc : pc.taken = (s.thread t).pc.taken) :
    Placed (s.setThread t { s.thread t with lqueue := (s.thread t).lqueue ++ [c], pc := pc })
      (Function.update place c (.ready t)) := by
  have hlocal := h.own_eq hc rfl
  have hnot : c ∉ (s.thread t).lqueue := (congrArg Local.ready hlocal).mp
  have hshared : s.shared c = (Place.ready t).shared :=
    (h.shared_eq hc).trans (by simp [Place.shared, Standing.hook])
  refine h.setThread hshared ?_ (by simp [hc, Place.owner]) (by simp [Place.owner]) (fun d hd => ?_) ?_
    { h.lists t with ready := List.nodup_append_comm.mp (List.Nodup.cons hnot (h.lists t).ready) }
  · simp_all [Thread.local, Place.owner, Place.own, nowhere, attachedLocal]
  · simp [Thread.local, hpc, hd]
  · have hallowed := h.allowed hc
    cases c with
    | main u => exact hallowed.1
    | dispatcher u => exact hallowed.1
    | worker n => cases hpinned

theorem Placed.dequeue (h : Placed s place) {rest : List (CtxId T)} (hq : (s.thread t).lqueue = c :: rest) :
    place c = .ready t ∧ Placed (s.setThread t { s.thread t with lqueue := rest })
      (Function.update place c (.attached t false .running)) := by
  have hc : place c = .ready t := h.of_ready (by rw [hq]; exact List.mem_cons_self)
  have hnodup := (h.lists t).ready
  rw [hq, List.nodup_cons] at hnodup
  have hlocal := h.own_eq hc rfl
  have hallowed := h.allowed hc
  have hpinned : c.pinned := by
    cases c with
    | worker n => cases hallowed
    | main u | dispatcher u => rfl
  have hshared : s.shared c = (Place.attached t false .running).shared :=
    (h.shared_eq hc).trans (by simp [Place.shared, Standing.hook])
  refine ⟨hc, h.setThread hshared ?_ (by simp [hc, Place.owner]) (by simp [Place.owner])
    (fun d hd => ?_) ?_ { h.lists t with ready := hnodup.2 }⟩
  · simp_all [Thread.local, Place.owner, Place.own, nowhere, attachedLocal]
  · simp [Thread.local, hq, hd]
  · cases c with
    | main u => exact ⟨hallowed, by simp⟩
    | dispatcher u => exact ⟨hallowed, rfl⟩
    | worker n => trivial

theorem Placed.hook (h : Placed s place) {a : Bool} {standing standing' : Standing} {hook : Option Link}
    (hc : place c = .attached t a standing) (hhook : standing'.hook = hook)
    (hsleeping : standing ≠ .sleeping ∧ standing' ≠ .sleeping)
    (hending : standing ≠ .ending ∧ standing' ≠ .ending)
    (hallows : (Place.attached t a standing').Allows c) :
    Placed { s with waitHook := Function.update s.waitHook c hook }
      (Function.update place c (.attached t a standing')) := by
  have hshared := h.shared_eq hc
  have hown : (Place.attached t a standing').own c = (Place.attached t a standing).own c := by
    simp [Place.own, attachedLocal, hsleeping, hending]
  refine h.move ?_ (fun u hu => ?_) (fun u hu => h.local_nowhere hc hu) (fun d hd => ⟨?_, fun _ => rfl⟩) hallows
    h.nodup h.lists
  · simp_all [State.shared, Place.shared, State.Created]
  · rw [hown]
    exact h.own_eq hc hu
  · simp [State.shared, State.Created, hd]

theorem Placed.waitLink (h : Placed s place) {a : Bool} {link : Link} (hc : place c = .attached t a .running)
    (hallows : (Place.attached t a (.hooked link)).Allows c) :
    Placed (s.waitLink c link) (Function.update place c (.attached t a (.hooked link))) :=
  h.hook hc rfl (by simp) (by simp) hallows

theorem Placed.waitUnlink (h : Placed s place) {a : Bool} {link : Link}
    (hc : place c = .attached t a (.hooked link)) :
    Placed (s.waitUnlink c) (Function.update place c (.attached t a .running)) := by
  refine h.hook hc rfl (by simp) (by simp) ?_
  have hallowed := h.allowed hc
  cases c with
  | main u => exact ⟨hallowed.1, by simp⟩
  | dispatcher u => cases hallowed.2
  | worker n => trivial

omit [DecidableEq T] in
theorem Placed.setTp (h : Placed s place) (tp : CtxId T → TimePoint) : Placed { s with tp := tp } place :=
  h.same (fun _ => rfl) (fun _ _ => rfl) h.nodup h.lists

theorem Placed.sleepLink (h : Placed s place) {a : Bool} (hc : place c = .attached t a .running)
    (hallows : (Place.attached t a .sleeping).Allows c) (sleepTp : TimePoint) :
    Placed (s.sleepLink t c sleepTp) (Function.update place c (.attached t a .sleeping)) := by
  have hlocal := h.own_eq hc rfl
  have hnot : c ∉ (s.thread t).sleepQueue := by
    have hsleeping := congrArg Local.sleeping hlocal
    simpa [Thread.local, Place.own, attachedLocal] using hsleeping
  have hnodup := (List.nodup_cons.mpr ⟨hnot, (h.lists t).sleeping⟩).perm (List.perm_orderedInsert
    (fun a b => Function.update s.tp c sleepTp a < Function.update s.tp c sleepTp b) c _).symm
  have hshared : s.shared c = (Place.attached t a .sleeping).shared :=
    (h.shared_eq hc).trans (by simp [Place.shared, Standing.hook])
  rw [State.sleepLink]
  refine (h.setTp _).setThread hshared ?_ (by simp [hc, Place.owner]) (by simp [Place.owner])
    (fun d hd => ?_) hallows { h.lists t with sleeping := hnodup }
  · simp_all [Thread.local, Place.owner, Place.own, attachedLocal]
  · simp [Thread.local, hd]

theorem Placed.sleepPop (h : Placed s place) {rest : List (CtxId T)} {a : Bool}
    (hq : (s.thread t).sleepQueue = c :: rest) (hc : place c = .attached t a .sleeping)
    (tp : CtxId T → TimePoint) :
    Placed ({ s with tp := tp }.setThread t { s.thread t with sleepQueue := rest })
      (Function.update place c (.attached t a .running)) := by
  have hnodup := (h.lists t).sleeping
  rw [hq, List.nodup_cons] at hnodup
  have hlocal := h.own_eq hc rfl
  have hallowed := h.allowed hc
  have hshared : s.shared c = (Place.attached t a .running).shared :=
    (h.shared_eq hc).trans (by simp [Place.shared, Standing.hook])
  refine (h.setTp tp).setThread hshared ?_ (by simp [hc, Place.owner]) (by simp [Place.owner])
    (fun d hd => ?_) ?_ { h.lists t with sleeping := hnodup.2 }
  · simp_all [Thread.local, Place.owner, Place.own, attachedLocal]
  · simp [Thread.local, hq, hd]
  · cases c with
    | main u => exact ⟨hallowed.1, by simp⟩
    | dispatcher u => cases hallowed.2
    | worker n => trivial

theorem Placed.terminate (h : Placed s place) {a : Bool} {n : Nat}
    (hc : place (.worker n) = .attached t a .running) :
    Placed ({ s with terminated := Function.update s.terminated (.worker n) true }.terminatedLink t (.worker n))
      (Function.update place (.worker n) (.attached t a .ending)) := by
  have hlocal := h.own_eq hc rfl
  have hshared := h.shared_eq hc
  have hnot : CtxId.worker n ∉ (s.thread t).terminatedQueue := by
    have hretired := congrArg Local.retired hlocal
    simpa [Thread.local, Place.own, attachedLocal] using hretired
  refine h.move ?_ (fun u hu => ?_) (fun u hu => ?_) (fun d hd => ⟨?_, fun u => ?_⟩) trivial h.nodup
    (lists_setThread h.lists
      { h.lists t with retired := List.nodup_append_comm.mp (List.Nodup.cons hnot (h.lists t).retired) })
  · simp_all [State.shared, State.terminatedLink, State.setThread, Place.shared, Standing.hook, State.Created]
  · obtain rfl : t = u := Option.some.inj hu
    simp_all [State.terminatedLink, Thread.local, Place.own, attachedLocal]
  · rw [State.terminatedLink, setThread_of_ne _ _ fun hut => hu (congrArg some hut.symm)]
    exact h.local_nowhere hc hu
  · simp [State.shared, State.terminatedLink, State.setThread, hd, State.Created]
  · by_cases hu : u = t
    · subst hu
      simp [State.terminatedLink, Thread.local, hd]
    · rw [State.terminatedLink, setThread_of_ne _ _ hu]

theorem Placed.release (h : Placed s place) {rest : List (CtxId T)} {n : Nat}
    (hq : (s.thread t).terminatedQueue = .worker n :: rest)
    (hc : place (.worker n) = .attached t false .ending) :
    Placed ((s.workerUnlink (.worker n)).setThread t
        { (s.workerUnlink (.worker n)).thread t with terminatedQueue := rest })
      (Function.update place (.worker n) (.released t)) := by
  have hlocal := h.own_eq hc rfl
  have hshared := h.shared_eq hc
  have hnodup := (h.lists t).retired
  rw [hq, List.nodup_cons] at hnodup
  have hlists : ∀ u, Lists ((s.workerUnlink (.worker n)).thread u) := fun u =>
    { h.lists u with worker := (h.lists u).worker.erase _ }
  have hnot : ∀ u, CtxId.worker n ∉ (s.thread u).workerQueue.erase (.worker n) := fun u =>
    (h.lists u).worker.not_mem_erase
  refine h.move ?_ (fun u hu => absurd hu (Place.unowned rfl u)) (fun u _ => ?_)
    (fun d hd => ⟨?_, fun u => ?_⟩) trivial h.nodup
    (lists_setThread hlists { hlists t with retired := hnodup.2 })
  · simp_all [State.shared, State.workerUnlink, State.setThread, Place.shared, Standing.hook, State.Created]
  · have hnot := hnot u
    by_cases hu : u = t
    · subst hu
      simp_all [State.workerUnlink, Thread.local, Place.own, attachedLocal, nowhere]
    · have hlocal := h.local_nowhere (t := u) hc fun hut => hu (Option.some.inj hut).symm
      rw [setThread_of_ne _ _ hu]
      simp_all [State.workerUnlink, Thread.local, nowhere]
  · simp [State.shared, State.workerUnlink, State.setThread, State.Created]
  · by_cases hu : u = t
    · subst hu
      simp [State.workerUnlink, Thread.local, List.mem_erase_of_ne hd, hq, hd]
    · rw [setThread_of_ne _ _ hu]
      simp [State.workerUnlink, Thread.local, List.mem_erase_of_ne hd]

theorem Placed.create (h : Placed s place) :
    Placed { s with ncreated := s.ncreated + 1 } (Function.update place (.worker s.ncreated) .detached) := by
  have hc : place (.worker s.ncreated) = .fresh := h.of_fresh (Nat.lt_irrefl _)
  have hshared := h.shared_eq hc
  refine h.move ?_ (fun u hu => absurd hu (Place.unowned rfl u)) (fun u _ => h.away hc rfl u)
    (fun d hd => ⟨?_, fun _ => rfl⟩) trivial h.nodup h.lists
  · simp_all [State.shared, Place.shared, State.Created]
  · cases d with
    | worker n =>
      have hne : n ≠ s.ncreated := fun hn => hd (congrArg CtxId.worker hn)
      have hlt : n < s.ncreated + 1 ↔ n < s.ncreated := by omega
      simp [State.shared, State.Created, hlt]
    | main u | dispatcher u => rfl

theorem sleepUnlink_eq (hc : ¬ s.SleepLinked c) : s.sleepUnlink c = s := by
  have herase : ∀ u, (s.thread u).sleepQueue.erase c = (s.thread u).sleepQueue := fun u =>
    List.erase_of_not_mem fun hmem => hc ⟨u, hmem⟩
  simp only [State.sleepUnlink, herase]

theorem readyUnlink_eq (hc : ¬ s.ReadyLinked c) : s.readyUnlink c = s := by
  have herase : ∀ u, (s.thread u).lqueue.erase c = (s.thread u).lqueue := fun u =>
    List.erase_of_not_mem fun hmem => hc ⟨u, hmem⟩
  simp only [State.readyUnlink, herase]

end Moves

end Dumbo.Fiber.Threads
