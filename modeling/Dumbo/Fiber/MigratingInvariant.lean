import Dumbo.Fiber.Migrating
import Dumbo.Fiber.SchedulerInvariant

/-!
# Where a migrating context is

A worker context is attached until it is ready, and detached as long as it is in the queue of pointers,
where no hook links it. This holds of the runs in which no deadline of a worker passes while the worker is
linked in a wait queue.
-/

namespace Dumbo.Fiber.Migrating

open Transition Scheduler

/-- The queues, also between the steps of a switch. -/
structure QueuesLinked (s : State) : Prop where
  fault : s.fault = none ∨ s.fault = some .nullScheduler
  system : dispatcherCtx < s.ncreated
  rqueue_nodup : s.rqueue.Nodup
  lqueue_nodup : s.lqueue.Nodup
  sleep_nodup : s.sleepQueue.Nodup
  detached : ∀ c, s.attached c = false ↔ c ∈ s.rqueue ∨ s.ncreated ≤ c
  queued : ∀ c ∈ s.rqueue, ¬ Pinned c ∧ c < s.ncreated ∧ c ∉ s.sleepQueue ∧ s.waitHook c = none ∧
    s.terminated c = false ∧ c ∉ s.workerQueue
  ready : ∀ c ∈ s.lqueue, Pinned c ∧ c ∉ s.sleepQueue ∧ (s.waitHook c ≠ none → s.TimedOut c)
  asleep : ∀ c ∈ s.sleepQueue, c ≠ dispatcherCtx ∧ c < s.ncreated ∧ s.terminated c = false ∧
    s.pc c = .waitUntil (s.tp c)
  hooked : ∀ c, s.waitHook c ≠ none → c ≠ dispatcherCtx ∧ c < s.ncreated ∧ s.terminated c = false
  joiners : ∀ c d, c ∈ s.waitQueue d ↔ s.waitHook c = some (.join d)
  joiners_nodup : ∀ d, (s.waitQueue d).Nodup
  worker : ∀ c ∈ s.workerQueue, c < s.ncreated
  worker_nodup : s.workerQueue.Nodup
  done : ∀ c ∈ s.terminatedQueue, s.terminated c = true
  terminated : ∀ c, s.terminated c = true → ¬ Pinned c ∧ c < s.ncreated

/-- A context that is in no queue; only the main context may still be linked by its wait hook, behind its
deadline. -/
structure Limbo (s : State) (c : CtxId) : Prop where
  created : c < s.ncreated
  rqueue : c ∉ s.rqueue
  lqueue : c ∉ s.lqueue
  sleep : c ∉ s.sleepQueue
  hook : s.waitHook c ≠ none → Pinned c ∧ s.TimedOut c

structure Inv (s : State) : Prop where
  queues : QueuesLinked s
  active : s.fault = none → Limbo s s.active
  live : s.fault = none → s.terminated s.active = false
  dispatcher : s.fault = none → s.active ≠ dispatcherCtx → dispatcherCtx ∈ s.lqueue

variable {s t : State} {c d : CtxId}

theorem State.require_pos {p : Prop} [Decidable p] (h : p) : s.require p = s := if_pos h

theorem pinned_dispatcher : Pinned dispatcherCtx := .inr rfl

theorem QueuesLinked.pinned_lt (h : QueuesLinked s) (hc : Pinned c) : c < s.ncreated := by
  have hsystem := h.system
  rcases hc with rfl | rfl
  · exact Nat.lt_of_le_of_lt (Nat.zero_le _) hsystem
  · exact hsystem

theorem QueuesLinked.attached_of (h : QueuesLinked s) (hc : c < s.ncreated) (hr : c ∉ s.rqueue) :
    s.attached c = true := by
  refine Bool.eq_true_of_not_eq_false fun hd => ?_
  exact ((h.detached c).mp hd).elim hr fun hle => absurd hc (Nat.not_lt.mpr hle)

/-- `set_ready` is about to be called on the context. -/
structure Wakeable (s : State) (c : CtxId) : Prop where
  created : c < s.ncreated
  rqueue : c ∉ s.rqueue
  live : s.terminated c = false
  hook : s.waitHook c ≠ none → Pinned c ∧ s.TimedOut c

theorem Limbo.wakeable (h : Limbo s c) (hlive : s.terminated c = false) : Wakeable s c :=
  ⟨h.created, h.rqueue, hlive, h.hook⟩

theorem Limbo.not_linked (h : Limbo s c) (hc : ¬ Pinned c ∨ s.pc c = .running) : s.waitHook c = none := by
  by_contra hhook
  obtain ⟨hpinned, sleepTp, hpc, -⟩ := h.hook hhook
  refine hc.elim (fun hworker => hworker hpinned) fun hrunning => ?_
  rw [hpc] at hrunning
  exact absurd hrunning (by simp)

/-! ### Ready contexts -/

/-- What changes where a context becomes ready. -/
structure Readied (s t : State) (c : CtxId) : Prop where
  waits : t.toWaits = s.toWaits
  active : t.active = s.active
  ncreated : t.ncreated = s.ncreated
  terminated : t.terminated = s.terminated
  terminatedQueue : t.terminatedQueue = s.terminatedQueue
  tp : t.tp = s.tp
  fault : t.fault = s.fault
  sleep : ∀ d, d ∈ t.sleepQueue → d ∈ s.sleepQueue
  rqueue : ∀ d, d ∈ t.rqueue → d ∈ s.rqueue ∨ d = c
  lqueue : ∀ d, d ∈ t.lqueue → d ∈ s.lqueue ∨ d = c
  kept : ∀ d, d ∈ s.lqueue ∨ Pinned c ∧ d = c → d ∈ t.lqueue

theorem Readied.limbo (h : Readied s t c) (hd : Limbo s d) (hne : d ≠ c) : Limbo t d := by
  refine ⟨h.ncreated ▸ hd.created, fun hr => ?_, fun hl => ?_, fun hs => hd.sleep (h.sleep d hs), ?_⟩
  · exact (h.rqueue d hr).elim hd.rqueue hne
  · exact (h.lqueue d hl).elim hd.lqueue hne
  · rw [h.waits]
    exact hd.hook

theorem QueuesLinked.not_done (h : QueuesLinked s) (hc : s.terminated c = false) :
    c ∉ s.terminatedQueue := fun hd => by
  rw [h.done c hd] at hc
  exact absurd hc (by simp)

theorem QueuesLinked.awakened_pinned (h : QueuesLinked s) (hc : Limbo s c) (hpinned : Pinned c) :
    QueuesLinked (s.awakened c) ∧ Readied s (s.awakened c) c ∧ (s.awakened c).sleepQueue = s.sleepQueue := by
  rw [State.awakened, if_pos hpinned, State.require_pos hc.lqueue]
  have hnodup : (s.lqueue ++ [c]).Nodup :=
    List.nodup_append_comm.mp (List.Nodup.cons hc.lqueue h.lqueue_nodup)
  refine ⟨{ h with lqueue_nodup := hnodup, ready := ?_ },
    ⟨rfl, rfl, rfl, rfl, rfl, rfl, rfl, fun _ => id, fun _ => .inl, ?_, ?_⟩, rfl⟩
  · intro d hd
    rcases List.mem_append.mp hd with hd | hd
    · exact h.ready d hd
    · obtain rfl := List.mem_singleton.mp hd
      exact ⟨hpinned, hc.sleep, fun hh => (hc.hook hh).2⟩
  · intro d hd
    exact (List.mem_append.mp hd).imp id List.mem_singleton.mp
  · intro d hd
    exact List.mem_append.mpr (hd.imp id fun hd => List.mem_singleton.mpr hd.2)

theorem QueuesLinked.awakened_worker (h : QueuesLinked s) (hc : Limbo s c) (hlive : s.terminated c = false)
    (hactive : s.active ≠ c) (hworker : ¬ Pinned c) :
    QueuesLinked (s.awakened c) ∧ Readied s (s.awakened c) c ∧ (s.awakened c).sleepQueue = s.sleepQueue := by
  have hhook := hc.not_linked (.inl hworker)
  have hdetach : s.detach c = { s with
      attached := Function.update s.attached c false, workerQueue := s.workerQueue.erase c } := by
    rw [State.detach, State.require_pos]
    exact ⟨hactive, h.attached_of hc.created hc.rqueue,
      ⟨hc.lqueue, hc.sleep, h.not_done hlive, hhook⟩, hworker⟩
  rw [State.awakened, if_neg hworker, hdetach]
  refine ⟨{ h with
      rqueue_nodup := List.nodup_append_comm.mp (List.Nodup.cons hc.rqueue h.rqueue_nodup)
      detached := ?_
      queued := ?_
      worker := fun d hd => h.worker d (List.mem_of_mem_erase hd)
      worker_nodup := h.worker_nodup.erase c },
    ⟨rfl, rfl, rfl, rfl, rfl, rfl, rfl, fun _ => id, ?_, fun _ => .inl, ?_⟩, rfl⟩
  · intro d
    show Function.update s.attached c false d = false ↔ d ∈ s.rqueue ++ [c] ∨ s.ncreated ≤ d
    rw [List.mem_append, List.mem_singleton]
    by_cases hd : d = c
    · rw [hd, Function.update_self]
      simp
    · rw [Function.update_of_ne hd, h.detached d]
      simp [hd]
  · intro d hd
    rcases List.mem_append.mp hd with hd | hd
    · obtain ⟨hp, hlt, hs, hh, ht, hw⟩ := h.queued d hd
      exact ⟨hp, hlt, hs, hh, ht, fun he => hw (List.mem_of_mem_erase he)⟩
    · obtain rfl := List.mem_singleton.mp hd
      exact ⟨hworker, hc.created, hc.sleep, hhook, hlive, h.worker_nodup.not_mem_erase⟩
  · intro d hd
    exact (List.mem_append.mp hd).imp id List.mem_singleton.mp
  · intro d hd
    exact hd.elim id fun hd => absurd hd.1 hworker

theorem QueuesLinked.awakened (h : QueuesLinked s) (hc : Limbo s c) (hlive : s.terminated c = false)
    (hactive : s.active ≠ c) :
    QueuesLinked (s.awakened c) ∧ Readied s (s.awakened c) c ∧ (s.awakened c).sleepQueue = s.sleepQueue := by
  by_cases hpinned : Pinned c
  · exact h.awakened_pinned hc hpinned
  · exact h.awakened_worker hc hlive hactive hpinned

theorem QueuesLinked.unlink (h : QueuesLinked s) (c : CtxId) :
    QueuesLinked { s with sleepQueue := s.sleepQueue.erase c, lqueue := s.lqueue.erase c } := by
  refine { h with
    lqueue_nodup := h.lqueue_nodup.erase c
    sleep_nodup := h.sleep_nodup.erase c
    queued := ?_
    ready := ?_
    asleep := fun d hd => h.asleep d (List.mem_of_mem_erase hd) }
  · intro d hd
    obtain ⟨hp, hlt, hs, hrest⟩ := h.queued d hd
    exact ⟨hp, hlt, fun he => hs (List.mem_of_mem_erase he), hrest⟩
  · intro d hd
    obtain ⟨hp, hs, hrest⟩ := h.ready d (List.mem_of_mem_erase hd)
    exact ⟨hp, fun he => hs (List.mem_of_mem_erase he), hrest⟩

theorem QueuesLinked.setReady (h : QueuesLinked s) (hc : Wakeable s c) (hactive : s.active ≠ c) :
    QueuesLinked (s.setReady c) ∧ Readied s (s.setReady c) c := by
  have hlimbo : Limbo { s with sleepQueue := s.sleepQueue.erase c, lqueue := s.lqueue.erase c } c :=
    ⟨hc.created, hc.rqueue, h.lqueue_nodup.not_mem_erase, h.sleep_nodup.not_mem_erase, hc.hook⟩
  rw [State.setReady, State.require_pos hc.live]
  obtain ⟨hqueues, hready, hsleep⟩ := (h.unlink c).awakened hlimbo hc.live hactive
  refine ⟨hqueues, hready.waits, hready.active, hready.ncreated, hready.terminated, hready.terminatedQueue,
    hready.tp, hready.fault, fun d hd => List.mem_of_mem_erase (hready.sleep d hd), hready.rqueue,
    fun d hd => ?_, fun d hd => hready.kept d ?_⟩
  · exact (hready.lqueue d hd).imp List.mem_of_mem_erase id
  · by_cases he : d = c
    · refine .inr ⟨?_, he⟩
      exact hd.elim (fun hl => (h.ready c (he ▸ hl)).1) And.left
    · exact .inl ((List.mem_erase_of_ne he).mpr (hd.resolve_right fun hp => he hp.2))

/-! ### The next context -/

/-- `pick_next` has taken a context out of its queue, and attached it. -/
structure Picked (s t : State) (c : CtxId) : Prop where
  queues : QueuesLinked t
  limbo : Limbo t c
  live : t.terminated c = false
  waits : t.toWaits = s.toWaits
  active : t.active = s.active
  terminated : t.terminated = s.terminated
  fault : t.fault = s.fault
  others : ∀ d, Limbo s d → d ≠ c ∧ Limbo t d
  kept : ∀ d, d ∈ s.lqueue → d ≠ c → d ∈ t.lqueue

theorem QueuesLinked.pickNext (h : QueuesLinked s) :
    s.lqueue = [] ∧ s.pickNext = (none, s) ∨ ∃ c t, s.pickNext = (some c, t) ∧ Picked s t c := by
  cases hr : s.rqueue with
  | cons c rest =>
    right
    have hc : c ∈ s.rqueue := by
      rw [hr]
      exact List.mem_cons_self ..
    have hnodup := h.rqueue_nodup
    rw [hr] at hnodup
    obtain ⟨hnew, hrest⟩ := List.nodup_cons.mp hnodup
    obtain ⟨hp, hlt, hs, hh, ht, hw⟩ := h.queued c hc
    have hl : c ∉ s.lqueue := fun hl => hp (h.ready c hl).1
    have hattach : { s with rqueue := rest }.attach c = { s with
        rqueue := rest, attached := Function.update s.attached c true
        workerQueue := s.workerQueue ++ [c] } := by
      rw [State.attach, State.require_pos]
      exact ⟨⟨hl, hs, h.not_done ht, hh⟩, hw, (h.detached c).mpr (.inl hc)⟩
    have hpick : s.pickNext = (some c, { s with rqueue := rest }.attach c) := by
      rw [State.pickNext, hr]
    refine ⟨c, _, hpick, ?_⟩
    rw [hattach]
    have hmem : ∀ d, d ∈ rest → d ∈ s.rqueue ∧ d ≠ c := fun d hd =>
      ⟨by rw [hr]; exact List.mem_cons_of_mem _ hd, fun he => hnew (he ▸ hd)⟩
    refine ⟨{ h with
        rqueue_nodup := hrest
        detached := ?_
        queued := ?_
        worker := ?_
        worker_nodup := List.nodup_append_comm.mp (List.Nodup.cons hw h.worker_nodup) },
      ⟨hlt, hnew, hl, hs, absurd hh⟩, ht, rfl, rfl, rfl, rfl, ?_, fun d hd _ => hd⟩
    · intro d
      show Function.update s.attached c true d = false ↔ d ∈ rest ∨ s.ncreated ≤ d
      by_cases hd : d = c
      · rw [hd, Function.update_self]
        simp [hnew, hlt]
      · rw [Function.update_of_ne hd, h.detached d, hr]
        simp [hd]
    · intro d hd
      obtain ⟨hdr, hne⟩ := hmem d hd
      obtain ⟨hp', hlt', hs', hh', ht', hw'⟩ := h.queued d hdr
      refine ⟨hp', hlt', hs', hh', ht', fun he => ?_⟩
      exact (List.mem_append.mp he).elim hw' fun he => hne (List.mem_singleton.mp he)
    · intro d hd
      rcases List.mem_append.mp hd with hd | hd
      · exact h.worker d hd
      · exact List.mem_singleton.mp hd ▸ hlt
    · intro d hd
      have hne : d ≠ c := fun he => hd.rqueue (he ▸ hc)
      exact ⟨hne, hd.created, fun he => hd.rqueue (hmem d he).1, hd.lqueue, hd.sleep, hd.hook⟩
  | nil =>
    cases hl : s.lqueue with
    | nil =>
      left
      refine ⟨rfl, ?_⟩
      rw [State.pickNext, hr, hl]
    | cons c rest =>
      right
      have hc : c ∈ s.lqueue := by
        rw [hl]
        exact List.mem_cons_self ..
      have hnodup := h.lqueue_nodup
      rw [hl] at hnodup
      obtain ⟨hnew, hrest⟩ := List.nodup_cons.mp hnodup
      obtain ⟨hp, hs, hh⟩ := h.ready c hc
      have hmem : ∀ d, d ∈ rest → d ∈ s.lqueue := fun d hd => by
        rw [hl]
        exact List.mem_cons_of_mem _ hd
      have hpick : s.pickNext = (some c, { s with lqueue := rest }) := by
        rw [State.pickNext, hr, hl]
      have hlive : s.terminated c = false := by
        refine Bool.eq_false_iff.mpr fun ht => ?_
        exact (h.terminated c ht).1 hp
      have hready : ∀ d ∈ rest, Pinned d ∧ d ∉ s.sleepQueue ∧ (s.waitHook d ≠ none → s.TimedOut d) :=
        fun d hd => h.ready d (hmem d hd)
      refine ⟨c, _, hpick, { h with lqueue_nodup := hrest, ready := hready },
        ⟨h.pinned_lt hp, ?_, hnew, hs, fun hk => ⟨hp, hh hk⟩⟩, hlive, rfl, rfl, rfl, rfl, ?_, ?_⟩
      · intro hr
        exact (h.queued c hr).1 hp
      · intro d hd
        have hne : d ≠ c := fun he => hd.lqueue (he ▸ hc)
        exact ⟨hne, hd.created, hd.rqueue, fun he => hd.lqueue (hmem d he), hd.sleep, hd.hook⟩
      · intro d hd hne
        rw [hl] at hd
        exact (List.mem_cons.mp hd).resolve_left hne

/-! ### Switches -/

theorem QueuesLinked.setActive (h : QueuesLinked s) (c : CtxId) : QueuesLinked { s with active := c } :=
  { h with }

theorem Limbo.setActive (h : Limbo s c) (d : CtxId) : Limbo { s with active := d } c := { h with }

theorem Picked.resume (h : Picked s t c) (hdispatcher : c ≠ dispatcherCtx → dispatcherCtx ∈ s.lqueue) :
    Inv (t.resume c none) :=
  ⟨h.queues.setActive c, fun _ => h.limbo.setActive c, fun _ => h.live, fun _ hc =>
    h.kept _ (hdispatcher hc) hc.symm⟩

theorem QueuesLinked.resumeReady (h : QueuesLinked s) (hc : Limbo s c) (hlive : s.terminated c = false)
    (hd : Limbo s d) (hlive' : s.terminated d = false) (hne : d ≠ c)
    (hdispatcher : c ≠ dispatcherCtx → dispatcherCtx ∈ s.lqueue ∨ d = dispatcherCtx) :
    Inv (s.resume c (some d)) := by
  obtain ⟨hqueues, hready⟩ := (h.setActive c).setReady ((hd.setActive c).wakeable hlive') hne.symm
  refine ⟨hqueues, fun _ => ?_, fun _ => ?_, fun _ hc => ?_⟩
  · have hactive := hready.limbo (hc.setActive c) hne.symm
    exact hready.active ▸ hactive
  · exact hready.active ▸ hready.terminated ▸ hlive
  · rw [show (s.resume c (some d)).active = c from hready.active] at hc
    exact hready.kept _ ((hdispatcher hc).imp id fun he => ⟨.inr he, he.symm⟩)

theorem Picked.resumeReady (h : Picked s t c) (hd : Limbo s d) (hlive : s.terminated d = false)
    (hdispatcher : dispatcherCtx ∈ s.lqueue ∨ d = dispatcherCtx) : Inv (t.resume c (some d)) := by
  obtain ⟨hne, hlimbo⟩ := h.others d hd
  have hlive' : t.terminated d = false := h.terminated ▸ hlive
  exact h.queues.resumeReady h.limbo h.live hlimbo hlive' hne fun hc =>
    hdispatcher.imp_left fun hl => h.kept _ hl hc.symm

theorem QueuesLinked.picked (h : QueuesLinked s) (hdispatcher : dispatcherCtx ∈ s.lqueue) :
    ∃ c t, s.pickNext = (some c, t) ∧ Picked s t c := by
  rcases h.pickNext with ⟨hempty, -⟩ | hpicked
  · rw [hempty] at hdispatcher
    exact absurd hdispatcher List.not_mem_nil
  · exact hpicked

theorem QueuesLinked.resumeNext (h : QueuesLinked s) (hdispatcher : dispatcherCtx ∈ s.lqueue) :
    Inv (s.resumeNext none) := by
  obtain ⟨c, t, hpick, hpicked⟩ := h.picked hdispatcher
  rw [State.resumeNext, hpick]
  exact hpicked.resume fun _ => hdispatcher

theorem require_yield (h : Inv s) (hrun : s.fault = none) :
    s.require (s.terminated s.active = false ∧ s.active ∉ s.lqueue ∧ s.active ∉ s.sleepQueue) = s :=
  State.require_pos ⟨h.live hrun, (h.active hrun).lqueue, (h.active hrun).sleep⟩

theorem Inv.yield (h : Inv s) (hrun : s.fault = none) (huser : s.InUser) : Inv s.yield := by
  have hdispatcher := h.dispatcher hrun huser.1
  obtain ⟨c, t, hpick, hpicked⟩ := h.queues.picked hdispatcher
  rw [State.yield, require_yield h hrun, State.resumeNext, hpick]
  exact hpicked.resumeReady (h.active hrun) (h.live hrun) (.inl hdispatcher)

/-! ### Waits -/

/-- The queues where the active context `c` is about to be suspended. -/
structure Leaving (s : State) (c : CtxId) : Prop where
  queues : QueuesLinked s
  created : c < s.ncreated
  rqueue : c ∉ s.rqueue
  lqueue : c ∉ s.lqueue
  sleep : c ∉ s.sleepQueue
  live : s.terminated c = false
  user : c ≠ dispatcherCtx

theorem Inv.leaving (h : Inv s) (hrun : s.fault = none) (huser : s.InUser) : Leaving s s.active :=
  have ha := h.active hrun
  ⟨h.queues, ha.created, ha.rqueue, ha.lqueue, ha.sleep, h.live hrun, huser.1⟩

theorem Inv.not_linked (h : Inv s) (hrun : s.fault = none) (huser : s.InUser) :
    s.waitHook s.active = none := (h.active hrun).not_linked (.inr huser.2)

theorem Leaving.waitLink (h : Leaving s c) (hhook : s.waitHook c = none) (q : QueueId) :
    Leaving (s.waitLink c q) c ∧ (s.waitLink c q).lqueue = s.lqueue ∧
      (s.waitLink c q).sleepQueue = s.sleepQueue ∧ (s.waitLink c q).terminated = s.terminated ∧
      (s.waitLink c q).active = s.active ∧ (s.waitLink c q).attached = s.attached := by
  have hb := h.queues
  have hother : ∀ d, d ≠ c → Function.update s.waitHook c (some q) d = s.waitHook d := fun d hd =>
    Function.update_of_ne hd _ _
  have hqueued : ∀ d ∈ s.rqueue, ¬ Pinned d ∧ d < s.ncreated ∧ d ∉ s.sleepQueue ∧
      Function.update s.waitHook c (some q) d = none ∧ s.terminated d = false ∧ d ∉ s.workerQueue := by
    intro d hd
    rw [hother d fun he => h.rqueue (he ▸ hd)]
    exact hb.queued d hd
  have hready : ∀ d ∈ s.lqueue, Pinned d ∧ d ∉ s.sleepQueue ∧
      (Function.update s.waitHook c (some q) d ≠ none → s.TimedOut d) := by
    intro d hd
    rw [hother d fun he => h.lqueue (he ▸ hd)]
    exact hb.ready d hd
  have hhooked : ∀ d, Function.update s.waitHook c (some q) d ≠ none →
      d ≠ dispatcherCtx ∧ d < s.ncreated ∧ s.terminated d = false := by
    intro d hd
    by_cases he : d = c
    · rw [he]
      exact ⟨h.user, h.created, h.live⟩
    · rw [hother d he] at hd
      exact hb.hooked d hd
  have hnew : ∀ d, c ∉ s.waitQueue d := by
    intro d hd
    rw [hb.joiners, hhook] at hd
    exact absurd hd (by simp)
  cases q with
  | primitive q =>
    have heq : s.waitLink c (.primitive q) =
        { s with waitHook := Function.update s.waitHook c (some (.primitive q)) } := by
      unfold State.waitLink
      rw [State.require_pos hhook]
    rw [heq]
    refine ⟨{ h with queues := { hb with
      queued := hqueued, ready := hready, hooked := hhooked, joiners := ?_ } }, rfl, rfl, rfl, rfl, rfl⟩
    intro x d
    show x ∈ s.waitQueue d ↔ Function.update s.waitHook c (some (.primitive q)) x = some (.join d)
    by_cases hx : x = c
    · rw [hx, Function.update_self]
      exact iff_of_false (hnew d) (by simp)
    · rw [hother x hx]
      exact hb.joiners x d
  | join e =>
    have heq : s.waitLink c (.join e) = { s with
        waitHook := Function.update s.waitHook c (some (.join e))
        waitQueue := Function.update s.waitQueue e (s.waitQueue e ++ [c]) } := by
      unfold State.waitLink
      rw [State.require_pos hhook]
    rw [heq]
    refine ⟨{ h with queues := { hb with
      queued := hqueued, ready := hready, hooked := hhooked, joiners := ?_, joiners_nodup := ?_ } },
      rfl, rfl, rfl, rfl, rfl⟩
    · intro x d
      show x ∈ Function.update s.waitQueue e (s.waitQueue e ++ [c]) d ↔
        Function.update s.waitHook c (some (.join e)) x = some (.join d)
      by_cases hd : d = e
      · rw [hd, Function.update_self, List.mem_append, List.mem_singleton]
        by_cases hx : x = c
        · simp [hx]
        · rw [hother x hx, hb.joiners]
          simp [hx]
      · rw [Function.update_of_ne hd]
        by_cases hx : x = c
        · rw [hx, Function.update_self]
          refine iff_of_false (hnew d) fun he => hd ?_
          exact (QueueId.join.inj (Option.some.inj he)).symm
        · rw [hother x hx]
          exact hb.joiners x d
    · intro d
      show (Function.update s.waitQueue e (s.waitQueue e ++ [c]) d).Nodup
      by_cases hd : d = e
      · rw [hd, Function.update_self]
        exact List.nodup_append_comm.mp (List.Nodup.cons (hnew e) (hb.joiners_nodup e))
      · rw [Function.update_of_ne hd]
        exact hb.joiners_nodup d

theorem Leaving.setPc (h : Leaving s c) (pc : Pc) :
    Leaving { s with pc := Function.update s.pc c pc } c := by
  have hb := h.queues
  have hother : ∀ d, d ≠ c → Function.update s.pc c pc d = s.pc d := fun d hd =>
    Function.update_of_ne hd _ _
  refine { h with queues := { hb with ready := ?_, asleep := ?_ } }
  · intro d hd
    obtain ⟨hp, hs, hh⟩ := hb.ready d hd
    refine ⟨hp, hs, fun hk => ?_⟩
    obtain ⟨sleepTp, hpc, hle⟩ := hh hk
    exact ⟨sleepTp, (hother d fun he => h.lqueue (he ▸ hd)).trans hpc, hle⟩
  · intro d hd
    obtain ⟨hne, hlt, ht, hpc⟩ := hb.asleep d hd
    exact ⟨hne, hlt, ht, (hother d fun he => h.sleep (he ▸ hd)).trans hpc⟩

theorem Leaving.sleepLink (h : Leaving s c) {sleepTp : TimePoint} (hpc : s.pc c = .waitUntil sleepTp) :
    QueuesLinked (s.sleepLink c sleepTp) := by
  have hb := h.queues
  have hmem : ∀ d, d ∈ (s.sleepLink c sleepTp).sleepQueue ↔ d = c ∨ d ∈ s.sleepQueue := fun d =>
    List.mem_orderedInsert _
  have htp : (s.sleepLink c sleepTp).tp = Function.update s.tp c sleepTp := rfl
  refine { hb with sleep_nodup := ?_, queued := ?_, ready := ?_, asleep := ?_ }
  · exact (List.perm_orderedInsert _ _ _).nodup_iff.mpr (List.nodup_cons.mpr ⟨h.sleep, hb.sleep_nodup⟩)
  · intro d hd
    obtain ⟨hp, hlt, hs, hrest⟩ := hb.queued d hd
    refine ⟨hp, hlt, fun he => ?_, hrest⟩
    exact ((hmem d).mp he).elim (fun he => h.rqueue (he ▸ hd)) hs
  · intro d hd
    obtain ⟨hp, hs, hrest⟩ := hb.ready d hd
    refine ⟨hp, fun he => ?_, hrest⟩
    exact ((hmem d).mp he).elim (fun he => h.lqueue (he ▸ hd)) hs
  · intro d hd
    rw [htp]
    rcases (hmem d).mp hd with rfl | hd
    · rw [Function.update_self]
      exact ⟨h.user, h.created, h.live, hpc⟩
    · have hne : d ≠ c := fun he => h.sleep (he ▸ hd)
      rw [Function.update_of_ne hne]
      exact hb.asleep d hd

theorem Inv.suspend (h : Inv s) (hrun : s.fault = none) (huser : s.InUser) (q : Nat) : Inv (s.suspend q) := by
  obtain ⟨hleaving, hlqueue, -⟩ :=
    (h.leaving hrun huser).waitLink (h.not_linked hrun huser) (.primitive q)
  refine hleaving.queues.resumeNext ?_
  rw [hlqueue]
  exact h.dispatcher hrun huser.1

theorem Leaving.schedulerWaitUntil (h : Leaving s c) (hc : s.active = c)
    (hdispatcher : dispatcherCtx ∈ s.lqueue) (sleepTp : TimePoint) :
    Inv (s.schedulerWaitUntil sleepTp) := by
  subst hc
  rw [State.schedulerWaitUntil, State.require_pos ⟨h.live, h.sleep⟩]
  refine QueuesLinked.resumeNext ?_ hdispatcher
  exact (h.setPc (.waitUntil sleepTp)).sleepLink (Function.update_self _ _ _)

theorem Inv.waitUntil (h : Inv s) (hrun : s.fault = none) (huser : s.InUser) (q : Option Nat)
    (sleepTp : TimePoint) : Inv (s.waitUntil q sleepTp) := by
  have hdispatcher := h.dispatcher hrun huser.1
  cases q with
  | none => exact (h.leaving hrun huser).schedulerWaitUntil rfl hdispatcher sleepTp
  | some q =>
    obtain ⟨hleaving, hlqueue, -, -, hactive, -⟩ :=
      (h.leaving hrun huser).waitLink (h.not_linked hrun huser) (.primitive q)
    refine hleaving.schedulerWaitUntil hactive ?_ sleepTp
    rw [hlqueue]
    exact hdispatcher

/-! ### Wake-ups -/

theorem waitUnlink_hook (x : CtxId) :
    (s.waitUnlink c).waitHook x = if x = c then none else s.waitHook x := by
  rw [show (s.waitUnlink c).waitHook = Function.update s.waitHook c none from rfl, Function.update_apply]

theorem QueuesLinked.waitUnlink (h : QueuesLinked s) (c : CtxId) : QueuesLinked (s.waitUnlink c) := by
  have hkept : ∀ x, (s.waitUnlink c).waitHook x ≠ none → s.waitHook x ≠ none := by
    intro x hx
    rw [waitUnlink_hook] at hx
    split_ifs at hx with he
    · exact absurd rfl hx
    · exact hx
  refine { h with
    queued := ?_
    ready := ?_
    hooked := fun d hd => h.hooked d (hkept d hd)
    joiners := ?_
    joiners_nodup := fun d => (h.joiners_nodup d).erase c }
  · intro d hd
    obtain ⟨hp, hlt, hs, hh, hrest⟩ := h.queued d hd
    refine ⟨hp, hlt, hs, ?_, hrest⟩
    by_contra hk
    exact hkept d hk hh
  · intro d hd
    obtain ⟨hp, hs, hh⟩ := h.ready d hd
    exact ⟨hp, hs, fun hk => hh (hkept d hk)⟩
  · intro x d
    rw [show (s.waitUnlink c).waitQueue d = (s.waitQueue d).erase c from rfl,
      (h.joiners_nodup d).mem_erase_iff, waitUnlink_hook, h.joiners]
    split_ifs with he
    · simp [he]
    · simp [he]

theorem Limbo.waitUnlink (h : Limbo s d) (c : CtxId) : Limbo (s.waitUnlink c) d := by
  refine { h with hook := ?_ }
  intro hk
  rw [waitUnlink_hook] at hk
  split_ifs at hk with he
  · exact absurd rfl hk
  · exact h.hook hk

theorem QueuesLinked.wake (h : QueuesLinked s) (hactive : s.active < s.ncreated ∧ s.active ∉ s.rqueue)
    (hne : s.active ≠ c) (hc : s.waitHook c ≠ none) :
    QueuesLinked (s.wake c) ∧ Readied (s.waitUnlink c) (s.wake c) c := by
  obtain ⟨-, hlt, hlive⟩ := h.hooked c hc
  have hqueue : c ∉ s.rqueue := fun hr => hc (h.queued c hr).2.2.2.1
  have hhook : (s.waitUnlink c).waitHook c = none := by
    rw [waitUnlink_hook, if_pos rfl]
  rw [State.wake, State.contextSetReady, State.require_pos]
  · exact (h.waitUnlink c).setReady ⟨hlt, hqueue, hlive, absurd hhook⟩ hne
  · exact ⟨hne, h.attached_of hactive.1 hactive.2, h.attached_of hlt hqueue⟩

theorem Inv.wake (h : Inv s) (hrun : s.fault = none) (huser : s.InUser) (hc : s.waitHook c ≠ none) :
    Inv (s.wake c) := by
  have ha := h.active hrun
  have hne : s.active ≠ c := fun he => hc (he ▸ h.not_linked hrun huser)
  obtain ⟨hqueues, hready⟩ := h.queues.wake ⟨ha.created, ha.rqueue⟩ hne hc
  refine ⟨hqueues, fun _ => ?_, fun _ => ?_, fun _ hd => ?_⟩
  · have hlimbo := hready.limbo (ha.waitUnlink c) hne
    exact hready.active ▸ hlimbo
  · exact hready.active ▸ hready.terminated ▸ h.live hrun
  · exact hready.kept _ (.inl (h.dispatcher hrun huser.1))

theorem QueuesLinked.nullScheduler (h : QueuesLinked s) : QueuesLinked (s.fail .nullScheduler) := by
  have hfault : (s.fail .nullScheduler).fault = some .nullScheduler := by
    rcases h.fault with hf | hf
    · rw [State.fail, hf]
      rfl
    · rw [State.fail, hf]
      rfl
  exact { h with fault := .inr hfault }

theorem fail_ne_none {fault : Fault} : (s.fail fault).fault ≠ none := by
  cases hf : s.fault <;> simp [State.fail, hf]

/-- `suspend` through the scheduler of the context that is joined, which may be null. -/
theorem Leaving.joinSuspend (h : Leaving s c) (hc : s.active = c) (hdispatcher : dispatcherCtx ∈ s.lqueue)
    (d : CtxId) (joined : Bool) :
    Inv (if joined then { s with pc := Function.update s.pc s.active (.joining d) }.resumeNext none
      else { s with pc := Function.update s.pc s.active (.joining d) }.fail .nullScheduler) := by
  subst hc
  have hqueues := (h.setPc (.joining d)).queues
  cases joined with
  | true => exact hqueues.resumeNext hdispatcher
  | false =>
    exact ⟨hqueues.nullScheduler, fun hf => absurd hf fail_ne_none, fun hf => absurd hf fail_ne_none,
      fun hf => absurd hf fail_ne_none⟩

theorem Inv.join (h : Inv s) (hrun : s.fault = none) (huser : s.InUser) (c : CtxId) : Inv (s.join c) := by
  rw [State.join]
  split_ifs with hdone
  · exact h
  obtain ⟨hleaving, hlqueue, -, -, hactive, -⟩ :=
    (h.leaving hrun huser).waitLink (h.not_linked hrun huser) (.join c)
  refine hleaving.joinSuspend hactive ?_ c _
  rw [hlqueue]
  exact h.dispatcher hrun huser.1

/-! ### Termination -/

/-- The active context `c` has set its flag and notifies those that join it. -/
structure Ending (s : State) (c : CtxId) : Prop where
  queues : QueuesLinked s
  limbo : Limbo s c
  hook : s.waitHook c = none
  flag : s.terminated c = true
  active : s.active = c
  dispatcher : dispatcherCtx ∈ s.lqueue

theorem Inv.ending (h : Inv s) (hrun : s.fault = none) (huser : s.InUser) (hmain : s.active ≠ mainCtx) :
    Ending { s with terminated := Function.update s.terminated s.active true } s.active := by
  have hb := h.queues
  have ha := h.active hrun
  have hhook := h.not_linked hrun huser
  have hother : ∀ d, d ≠ s.active → Function.update s.terminated s.active true d = s.terminated d := by
    intro d hd
    exact Function.update_of_ne hd _ _
  refine ⟨{ hb with queued := ?_, asleep := ?_, hooked := ?_, done := ?_, terminated := ?_ }, { ha with },
    hhook, Function.update_self _ _ _, rfl, h.dispatcher hrun huser.1⟩
  · intro d hd
    have hne : d ≠ s.active := fun he => ha.rqueue (he ▸ hd)
    show _ ∧ _ ∧ _ ∧ _ ∧ Function.update s.terminated s.active true d = false ∧ _
    rw [hother d hne]
    exact hb.queued d hd
  · intro d hd
    have hne : d ≠ s.active := fun he => ha.sleep (he ▸ hd)
    show _ ∧ _ ∧ Function.update s.terminated s.active true d = false ∧ _
    rw [hother d hne]
    exact hb.asleep d hd
  · intro d hd
    have hne : d ≠ s.active := fun he => hd (he ▸ hhook)
    show _ ∧ _ ∧ Function.update s.terminated s.active true d = false
    rw [hother d hne]
    exact hb.hooked d hd
  · intro d hd
    show Function.update s.terminated s.active true d = true
    by_cases he : d = s.active
    · rw [he, Function.update_self]
    · rw [hother d he]
      exact hb.done d hd
  · intro d hd
    by_cases he : d = s.active
    · rw [he]
      exact ⟨fun hp => hp.elim hmain huser.1, ha.created⟩
    · have hd' : s.terminated d = true := (hother d he).symm.trans hd
      exact hb.terminated d hd'

theorem Ending.wake (h : Ending s c) (hd : s.waitHook d ≠ none) :
    Ending (s.wake d) c ∧ ∀ x, x ≠ d → (s.wake d).waitHook x = s.waitHook x := by
  have hne : c ≠ d := fun he => hd (he ▸ h.hook)
  have hactive : s.active < s.ncreated ∧ s.active ∉ s.rqueue := by
    rw [h.active]
    exact ⟨h.limbo.created, h.limbo.rqueue⟩
  obtain ⟨hqueues, hready⟩ := h.queues.wake hactive (h.active ▸ hne) hd
  have hother : ∀ x, x ≠ d → (s.wake d).waitHook x = s.waitHook x := by
    intro x hx
    rw [hready.waits, waitUnlink_hook, if_neg hx]
  refine ⟨⟨hqueues, hready.limbo (h.limbo.waitUnlink d) hne, (hother c hne).trans h.hook, ?_,
    hready.active.trans h.active, hready.kept _ (.inl h.dispatcher)⟩, hother⟩
  rw [hready.terminated]
  exact h.flag

theorem Ending.notifyJoiners (l : List CtxId) (h : Ending s c) (hnodup : l.Nodup)
    (hlinked : ∀ d ∈ l, s.waitHook d ≠ none) : Ending (s.notifyJoiners l) c := by
  induction l generalizing s with
  | nil => exact h
  | cons d rest ih =>
    obtain ⟨hnew, hrest⟩ := List.nodup_cons.mp hnodup
    obtain ⟨hwake, hother⟩ := h.wake (hlinked d (List.mem_cons_self ..))
    refine ih hwake hrest fun x hx => ?_
    rw [hother x fun he => hnew (he ▸ hx)]
    exact hlinked x (List.mem_cons_of_mem _ hx)

theorem Ending.setTerminated (h : Ending s c) : Inv s.schedulerSetTerminated := by
  have hworker := (h.queues.terminated c h.flag).1
  have hb := h.queues
  obtain rfl := h.active
  rw [State.schedulerSetTerminated, State.require_pos ⟨hworker, h.flag, h.limbo.lqueue, h.limbo.sleep, h.hook⟩]
  refine QueuesLinked.resumeNext { hb with done := ?_ } h.dispatcher
  intro d hd
  rcases List.mem_append.mp hd with hd | hd
  · exact hb.done d hd
  · exact List.mem_singleton.mp hd ▸ h.flag

theorem Inv.setTerminated (h : Inv s) (hrun : s.fault = none) (huser : s.InUser)
    (hmain : s.active ≠ mainCtx) : Inv s.setTerminated := by
  have hlinked : ∀ d ∈ s.waitQueue s.active, s.waitHook d ≠ none := by
    intro d hd
    rw [(h.queues.joiners d s.active).mp hd]
    exact Option.some_ne_none _
  exact ((h.ending hrun huser hmain).notifyJoiners _ (h.queues.joiners_nodup s.active) hlinked).setTerminated

/-! ### New contexts -/

/-- The constructor of `fiber` has attached the context it makes. -/
structure Created (s t : State) : Prop where
  queues : QueuesLinked t
  limbo : Limbo t s.ncreated
  live : t.terminated s.ncreated = false
  active : t.active = s.active
  lqueue : t.lqueue = s.lqueue
  terminated : t.terminated = s.terminated
  others : ∀ d, Limbo s d → Limbo t d

theorem QueuesLinked.create (h : QueuesLinked s) :
    Created s ({ s with ncreated := s.ncreated + 1 }.attach s.ncreated) := by
  have hqueue : s.ncreated ∉ s.rqueue := fun hd => Nat.lt_irrefl _ (h.queued _ hd).2.1
  have hready : s.ncreated ∉ s.lqueue := fun hd => Nat.lt_irrefl _ (h.pinned_lt (h.ready _ hd).1)
  have hsleep : s.ncreated ∉ s.sleepQueue := fun hd => Nat.lt_irrefl _ (h.asleep _ hd).2.1
  have hworker : s.ncreated ∉ s.workerQueue := fun hd => Nat.lt_irrefl _ (h.worker _ hd)
  have hlive : s.terminated s.ncreated = false := by
    refine Bool.eq_false_iff.mpr fun ht => ?_
    exact Nat.lt_irrefl _ (h.terminated _ ht).2
  have hhook : s.waitHook s.ncreated = none := by
    by_contra hk
    exact Nat.lt_irrefl _ (h.hooked _ hk).2.1
  have hattach : { s with ncreated := s.ncreated + 1 }.attach s.ncreated = { s with
      ncreated := s.ncreated + 1, attached := Function.update s.attached s.ncreated true
      workerQueue := s.workerQueue ++ [s.ncreated] } := by
    rw [State.attach, State.require_pos]
    exact ⟨⟨hready, hsleep, h.not_done hlive, hhook⟩, hworker, (h.detached _).mpr (.inr (Nat.le_refl _))⟩
  have hnew : ∀ {d}, d < s.ncreated → d < s.ncreated + 1 := Nat.lt_succ_of_lt
  rw [hattach]
  refine ⟨{ h with
      system := hnew h.system
      detached := ?_
      queued := ?_
      asleep := ?_
      hooked := ?_
      worker := ?_
      worker_nodup := List.nodup_append_comm.mp (List.Nodup.cons hworker h.worker_nodup)
      terminated := ?_ },
    ⟨Nat.lt_succ_self _, hqueue, hready, hsleep, absurd hhook⟩, hlive, rfl, rfl, rfl,
    fun d hd => { hd with created := hnew hd.created }⟩
  · intro d
    show Function.update s.attached s.ncreated true d = false ↔ d ∈ s.rqueue ∨ s.ncreated + 1 ≤ d
    by_cases hd : d = s.ncreated
    · rw [hd, Function.update_self]
      simp [hqueue]
    · have hle : s.ncreated ≤ d ↔ s.ncreated + 1 ≤ d :=
        ⟨fun hle => Nat.lt_of_le_of_ne hle (Ne.symm hd), Nat.le_of_succ_le⟩
      rw [Function.update_of_ne hd, h.detached d, hle]
  · intro d hd
    obtain ⟨hp, hlt, hs, hh, ht, hw⟩ := h.queued d hd
    refine ⟨hp, hnew hlt, hs, hh, ht, fun he => ?_⟩
    rcases List.mem_append.mp he with he | he
    · exact hw he
    · exact Nat.ne_of_lt hlt (List.mem_singleton.mp he)
  · intro d hd
    obtain ⟨hne, hlt, hrest⟩ := h.asleep d hd
    exact ⟨hne, hnew hlt, hrest⟩
  · intro d hd
    obtain ⟨hne, hlt, ht⟩ := h.hooked d hd
    exact ⟨hne, hnew hlt, ht⟩
  · intro d hd
    rcases List.mem_append.mp hd with hd | hd
    · exact hnew (h.worker d hd)
    · exact List.mem_singleton.mp hd ▸ Nat.lt_succ_self _
  · intro d hd
    exact ⟨(h.terminated d hd).1, hnew (h.terminated d hd).2⟩

theorem Inv.create (h : Inv s) (hrun : s.fault = none) (huser : s.InUser) (policy : Launch) :
    Inv (s.create policy) := by
  have ha := h.active hrun
  have hcreated := h.queues.create
  have hne : s.active ≠ s.ncreated := Nat.ne_of_lt ha.created
  have hlimbo := hcreated.others _ ha
  have hlive := hcreated.terminated ▸ h.live hrun
  have hdispatcher := hcreated.lqueue ▸ h.dispatcher hrun huser.1
  cases policy with
  | post =>
    obtain ⟨hqueues, hready⟩ := hcreated.queues.setReady (hcreated.limbo.wakeable hcreated.live)
      fun he => hne (hcreated.active.symm.trans he)
    refine ⟨hqueues, fun _ => ?_, fun _ => ?_, fun _ _ => hready.kept _ (.inl hdispatcher)⟩
    · rw [show (s.create .post).active = s.active from hready.active.trans hcreated.active]
      exact hready.limbo hlimbo hne
    · rw [show (s.create .post).active = s.active from hready.active.trans hcreated.active]
      exact hready.terminated ▸ hlive
  | dispatch =>
    rw [State.create]
    show Inv (State.resume _ _ (some _))
    refine hcreated.queues.resumeReady hcreated.limbo hcreated.live ?_ ?_ ?_ fun _ => .inl hdispatcher
    · exact hcreated.active.symm ▸ hlimbo
    · exact hcreated.active.symm ▸ hlive
    · exact hcreated.active.symm ▸ hne

/-! ### The dispatcher -/

/-- The dispatcher runs its loop. -/
structure Dispatching (s : State) : Prop where
  queues : QueuesLinked s
  limbo : Limbo s dispatcherCtx
  active : s.active = dispatcherCtx

theorem timedOut_clock {now : TimePoint} (hclock : s.clock ≤ now) (hc : s.TimedOut c) :
    { s with clock := now : State }.TimedOut c := by
  obtain ⟨sleepTp, hpc, hle⟩ := hc
  exact ⟨sleepTp, hpc, Nat.le_trans hle hclock⟩

theorem QueuesLinked.setClock (h : QueuesLinked s) {now : TimePoint} (hclock : s.clock ≤ now) :
    QueuesLinked { s with clock := now } := by
  refine { h with ready := ?_ }
  intro d hd
  obtain ⟨hp, hs, hh⟩ := h.ready d hd
  exact ⟨hp, hs, fun hk => timedOut_clock hclock (hh hk)⟩

theorem Limbo.setClock (h : Limbo s c) {now : TimePoint} (hclock : s.clock ≤ now) :
    Limbo { s with clock := now } c :=
  { h with hook := fun hk => (h.hook hk).imp_right (timedOut_clock hclock) }

theorem Dispatching.releaseTerminated (l : List CtxId) (h : Dispatching s)
    (hl : ∀ c ∈ l, s.terminated c = true) :
    Dispatching (s.releaseTerminated l) ∧ (s.releaseTerminated l).sleepQueue = s.sleepQueue ∧
      (s.releaseTerminated l).tp = s.tp ∧ (s.releaseTerminated l).toWaits = s.toWaits := by
  induction l generalizing s with
  | nil =>
    have hnone : ∀ d ∈ ([] : List CtxId), s.terminated d = true := fun d hd => absurd hd List.not_mem_nil
    exact ⟨⟨{ h.queues with done := hnone }, { h.limbo with }, h.active⟩, rfl, rfl, rfl⟩
  | cons c rest ih =>
    have hb := h.queues
    have hc := hl c (List.mem_cons_self ..)
    have hworker := (hb.terminated c hc).1
    have hready : c ∉ s.lqueue := fun hd => hworker (hb.ready c hd).1
    have hsleep : c ∉ s.sleepQueue := by
      intro hd
      have hlive := (hb.asleep c hd).2.2.1
      rw [hc] at hlive
      exact absurd hlive (by simp)
    have hrest : ∀ d ∈ rest, s.terminated d = true := fun d hd => hl d (List.mem_cons_of_mem _ hd)
    rw [State.releaseTerminated, State.require_pos ⟨hworker, hc, hready, hsleep⟩]
    refine ih ⟨{ hb with
        queued := ?_
        worker := fun d hd => hb.worker d (List.mem_of_mem_erase hd)
        worker_nodup := hb.worker_nodup.erase c
        done := hrest }, { h.limbo with }, h.active⟩ hrest
    intro d hd
    obtain ⟨hp, hlt, hs, hh, ht, hw⟩ := hb.queued d hd
    exact ⟨hp, hlt, hs, hh, ht, fun he => hw (List.mem_of_mem_erase he)⟩

theorem Dispatching.expire (h : Dispatching s) {rest : List CtxId} (hqueue : s.sleepQueue = c :: rest)
    (hexpired : s.tp c ≤ s.clock) (hlinked : ¬ Pinned c → s.waitHook c = none) :
    Dispatching { s with sleepQueue := rest, tp := Function.update s.tp c timeMax } ∧
      Limbo { s with sleepQueue := rest, tp := Function.update s.tp c timeMax } c := by
  have hb := h.queues
  have hlimbo := h.limbo
  have hnodup := hb.sleep_nodup
  rw [hqueue] at hnodup
  obtain ⟨hnew, hrest⟩ := List.nodup_cons.mp hnodup
  have hc : c ∈ s.sleepQueue := by
    rw [hqueue]
    exact List.mem_cons_self ..
  have hmem : ∀ {d}, d ∈ rest → d ∈ s.sleepQueue := fun hd => by
    rw [hqueue]
    exact List.mem_cons_of_mem _ hd
  obtain ⟨-, hlt, -, hpc⟩ := hb.asleep c hc
  refine ⟨⟨{ hb with sleep_nodup := hrest, queued := ?_, ready := ?_, asleep := ?_ },
    { hlimbo with sleep := fun hd => hlimbo.sleep (hmem hd) }, h.active⟩, ⟨hlt, ?_, ?_, hnew, ?_⟩⟩
  · intro d hd
    obtain ⟨hp, hlt, hs, hh⟩ := hb.queued d hd
    exact ⟨hp, hlt, fun he => hs (hmem he), hh⟩
  · intro d hd
    obtain ⟨hp, hs, hh⟩ := hb.ready d hd
    exact ⟨hp, fun he => hs (hmem he), hh⟩
  · intro d hd
    have hne : d ≠ c := fun he => hnew (he ▸ hd)
    show _ ∧ _ ∧ _ ∧ _ = Pc.waitUntil (Function.update s.tp c timeMax d)
    rw [Function.update_of_ne hne]
    exact hb.asleep d (hmem hd)
  · intro hr
    exact (hb.queued c hr).2.2.1 hc
  · intro hl
    exact (hb.ready c hl).2.1 hc
  · intro hk
    refine ⟨?_, s.tp c, hpc, hexpired⟩
    by_contra hworker
    exact hk (hlinked hworker)

theorem Dispatching.sleep2ready (l : List CtxId) (h : Dispatching s) (hl : s.sleepQueue = l)
    (hlinked : ∀ c ∈ l, s.tp c ≤ s.clock → ¬ Pinned c → s.waitHook c = none) :
    Dispatching (s.sleep2ready s.clock l) := by
  induction l generalizing s with
  | nil => exact h
  | cons c rest ih =>
    have hc : c ∈ s.sleepQueue := by
      rw [hl]
      exact List.mem_cons_self ..
    obtain ⟨hne, -, hlive, -⟩ := h.queues.asleep c hc
    have hready : c ∉ s.lqueue := fun hd => (h.queues.ready c hd).2.1 hc
    rw [State.sleep2ready, State.require_pos ⟨hne, hlive, hready⟩]
    show Dispatching (if s.tp c ≤ s.clock then _ else _)
    split_ifs with hexpired
    · obtain ⟨hexpire, hlimbo⟩ := h.expire hl hexpired (hlinked c (List.mem_cons_self ..) hexpired)
      obtain ⟨hqueues, hreadied, hsleep⟩ :=
        hexpire.queues.awakened hlimbo hlive (hexpire.active.trans_ne hne.symm)
      have hnext : Dispatching ({ s with
          sleepQueue := rest, tp := Function.update s.tp c timeMax }.awakened c) :=
        ⟨hqueues, hreadied.limbo hexpire.limbo hne.symm, hreadied.active.trans hexpire.active⟩
      have hnew : c ∉ rest := by
        have hnodup := h.queues.sleep_nodup
        rw [hl] at hnodup
        exact (List.nodup_cons.mp hnodup).1
      have hih := ih hnext hsleep fun d hd => ?_
      · have hclock : ({ s with
            sleepQueue := rest, tp := Function.update s.tp c timeMax : State }.awakened c).clock = s.clock :=
          congrArg Waits.clock hreadied.waits
        rw [hclock] at hih
        exact hih
      · have hd' : d ≠ c := fun he => hnew (he ▸ hd)
        rw [hreadied.waits, hreadied.tp]
        show Function.update s.tp c timeMax d ≤ s.clock → _
        rw [Function.update_of_ne hd']
        exact hlinked d (List.mem_cons_of_mem _ hd)
    · exact h

theorem QueuesLinked.dispatcher_live (h : QueuesLinked s) : s.terminated dispatcherCtx = false := by
  refine Bool.eq_false_iff.mpr fun ht => ?_
  exact (h.terminated _ ht).1 pinned_dispatcher

theorem Dispatching.inv (h : Dispatching s) : Inv s :=
  ⟨h.queues, fun _ => h.active ▸ h.limbo, fun _ => h.active ▸ h.queues.dispatcher_live,
    fun _ hne => absurd h.active hne⟩

theorem Inv.dispatch (h : Inv s) (hrun : s.fault = none) (hactive : s.active = dispatcherCtx)
    {now : TimePoint} (hclock : s.clock ≤ now)
    (hlinked : ∀ c ∈ s.sleepQueue, s.tp c ≤ now → ¬ Pinned c → s.waitHook c = none) :
    Inv (s.dispatch now) := by
  have hstart : Dispatching { s with clock := now } :=
    ⟨h.queues.setClock hclock, hactive ▸ (h.active hrun).setClock hclock, hactive⟩
  obtain ⟨hreleased, hsleep, htp, hwaits⟩ := hstart.releaseTerminated s.terminatedQueue h.queues.done
  have hclock' : ({ s with clock := now : State }.releaseTerminated s.terminatedQueue).clock = now :=
    congrArg Waits.clock hwaits
  have hready := hreleased.sleep2ready _ rfl (by
    rw [hsleep, htp, hwaits]
    exact hlinked)
  rw [hclock'] at hready
  rw [State.dispatch]
  rcases hready.queues.pickNext with ⟨-, hpick⟩ | ⟨c, t, hpick, hpicked⟩
  · rw [hpick]
    exact hready.inv
  · rw [hpick]
    exact hpicked.resumeReady hready.limbo hready.queues.dispatcher_live (.inr rfl)

/-! ### Resumed contexts -/

theorem Leaving.waitUnlink (h : Leaving s c) (d : CtxId) : Leaving (s.waitUnlink d) c :=
  { h with queues := h.queues.waitUnlink d }

theorem Leaving.running (h : Leaving s c) (hc : s.active = c) (hhook : s.waitHook c = none)
    (hdispatcher : dispatcherCtx ∈ s.lqueue) :
    Inv { s with pc := Function.update s.pc s.active .running } := by
  subst hc
  have hrunning := h.setPc .running
  refine ⟨hrunning.queues, fun _ => ?_, fun _ => h.live, fun _ _ => hdispatcher⟩
  exact ⟨h.created, h.rqueue, h.lqueue, h.sleep, absurd hhook⟩

/-- A context that has been resumed before its deadline was taken out of the wait queue. -/
theorem Limbo.early (h : Limbo s c) {now sleepTp : TimePoint} (hpc : s.pc c = .waitUntil sleepTp)
    (hclock : s.clock ≤ now) (hearly : now < sleepTp) : s.waitHook c = none := by
  by_contra hhook
  obtain ⟨-, sleepTp', hpc', hle⟩ := h.hook hhook
  obtain rfl := Pc.waitUntil.inj (hpc.symm.trans hpc')
  exact absurd hearly (Nat.not_lt.mpr (Nat.le_trans hle hclock))

theorem Inv.resumed (h : Inv s) (hrun : s.fault = none) (huser : s.active ≠ dispatcherCtx)
    (hpc : s.pc s.active ≠ .running) {now : TimePoint} (hclock : s.clock ≤ now) : Inv (s.resumed now) := by
  have ha := h.active hrun
  have hdispatcher := h.dispatcher hrun huser
  have hleaving : Leaving { s with clock := now } s.active :=
    ⟨h.queues.setClock hclock, ha.created, ha.rqueue, ha.lqueue, ha.sleep, h.live hrun, huser⟩
  have hunlinked : ({ s with clock := now : State }.waitUnlink s.active).waitHook s.active = none := by
    rw [waitUnlink_hook, if_pos rfl]
  have hunlink := (hleaving.waitUnlink s.active).running rfl hunlinked hdispatcher
  unfold State.resumed
  cases hwait : s.pc s.active with
  | running => exact absurd hwait hpc
  | joining c =>
    simp only [hwait]
    exact hunlink
  | waitUntil sleepTp =>
    simp only [hwait]
    split_ifs with hearly
    · exact hleaving.running rfl (ha.early hwait hclock hearly) hdispatcher
    · exact hunlink

end Dumbo.Fiber.Migrating
