import Dumbo.Fiber.Scheduler
import Mathlib.Data.Finset.Card

/-!
# Well-formedness of the scheduler's queues

`Registered` relates the worker queue, the terminated queue and the reference counts; `Core` relates
the ready queue, the sleep queue and the wait hooks, and also holds while a context is about to be
switched away from. `Consistent` adds what holds of the active context between two steps.
-/

namespace Dumbo.Fiber.Scheduler

open Transition

/-- Created, and its function has not returned. -/
def Registry.Live (r : Registry) (c : CtxId) : Prop :=
  c < r.ncreated ∧ r.terminated c = false

/-- Suspended in `wait_until` with a deadline that has passed. -/
def Waits.TimedOut (w : Waits) (c : CtxId) : Prop :=
  ∃ sleepTp, w.pc c = .waitUntil sleepTp ∧ sleepTp ≤ w.clock

/-- The worker contexts that are not destroyed. -/
def Registry.workers (r : Registry) : Finset CtxId :=
  (Finset.range r.ncreated).filter fun c => dispatcherCtx < c ∧ r.useCount c ≠ 0

theorem Registry.mem_workers {r : Registry} {c : CtxId} :
    c ∈ r.workers ↔ c < r.ncreated ∧ dispatcherCtx < c ∧ r.useCount c ≠ 0 := by
  rw [Registry.workers, Finset.mem_filter, Finset.mem_range]

theorem Registry.workers_release {r : Registry} {c : CtxId} (hc : c ∈ r.workers) :
    ({ r with useCount := Function.update r.useCount c (r.useCount c - 1) }).workers =
      if r.useCount c - 1 = 0 then r.workers.erase c else r.workers := by
  ext x
  by_cases hx : x = c
  · rw [hx, Registry.mem_workers]
    simp only [Function.update_self]
    by_cases hz : r.useCount c - 1 = 0
    · simp only [hz, ne_eq, not_true_eq_false, and_false, if_true, Finset.mem_erase, false_and]
    · have hm := Registry.mem_workers.mp hc
      simp only [hz, if_false, hc, hm.1, hm.2.1, ne_eq, not_false_eq_true, and_self]
  · rw [Registry.mem_workers]
    simp only [Function.update_of_ne hx]
    rw [← Registry.mem_workers]
    by_cases hz : r.useCount c - 1 = 0
    · simp only [hz, if_true, Finset.mem_erase, ne_eq, hx, not_false_eq_true, true_and]
    · simp only [hz, if_false]

theorem Registry.contexts_release {r : Registry} {c : CtxId} (h : r.contexts = 2 + r.workers.card)
    (hc : c ∈ r.workers) :
    (if r.useCount c - 1 = 0 then r.contexts - 1 else r.contexts) =
      2 + ({ r with useCount := Function.update r.useCount c (r.useCount c - 1) }).workers.card := by
  rw [workers_release hc]
  by_cases hz : r.useCount c - 1 = 0
  · have hpos := Finset.card_pos.mpr ⟨c, hc⟩
    rw [if_pos hz, if_pos hz, h, Finset.card_erase_of_mem hc]
    omega
  · rw [if_neg hz, if_neg hz, h]

theorem Registry.not_mem_workers {r : Registry} : r.ncreated ∉ r.workers := by
  intro hm
  exact Nat.lt_irrefl _ (Registry.mem_workers.mp hm).1

theorem Registry.workers_create {r : Registry} (h : dispatcherCtx < r.ncreated) :
    ({ r with
      ncreated := r.ncreated + 1
      contexts := r.contexts + 1
      useCount := Function.update r.useCount r.ncreated 2
      joinable := Function.update r.joinable r.ncreated true
      workerQueue := r.workerQueue ++ [r.ncreated] }).workers = insert r.ncreated r.workers := by
  ext x
  rw [Finset.mem_insert, Registry.mem_workers, Registry.mem_workers]
  by_cases hx : x = r.ncreated
  · simp only [hx, Function.update_self, Nat.lt_succ_self, h, true_and, true_or, iff_true]
    decide
  · simp only [Function.update_of_ne hx, hx, false_or]
    constructor
    · rintro ⟨hlt, hrest⟩
      exact ⟨Nat.lt_of_le_of_ne (Nat.lt_succ_iff.mp hlt) hx, hrest⟩
    · rintro ⟨hlt, hrest⟩
      exact ⟨Nat.lt_succ_of_lt hlt, hrest⟩

/-- A worker context is referred to by its `fiber` object and by the scheduler, and the scheduler
lets go of terminated contexts only. -/
structure Registered (r : Registry) : Prop where
  system : dispatcherCtx < r.ncreated
  worker_nodup : r.workerQueue.Nodup
  worker_mem : ∀ c ∈ r.workerQueue, dispatcherCtx < c ∧ c < r.ncreated
  terminated_nodup : r.terminatedQueue.Nodup
  terminated_mem : ∀ c ∈ r.terminatedQueue, r.terminated c = true ∧ c ∈ r.workerQueue
  terminated_worker : ∀ c, r.terminated c = true → dispatcherCtx < c ∧ c < r.ncreated
  joinable_worker : ∀ c, r.joinable c = true → dispatcherCtx < c ∧ c < r.ncreated
  unreleased : ∀ c, dispatcherCtx < c → r.Live c → c ∈ r.workerQueue
  counted : ∀ c, dispatcherCtx < c → c < r.ncreated →
    r.useCount c = (r.joinable c).toNat + if c ∈ r.workerQueue then 1 else 0
  /-- `contexts_` counts the main context, the dispatcher and the workers still referred to -/
  contexts_eq : r.contexts = 2 + r.workers.card

theorem Registered.two_lt_contexts {r : Registry} {c : CtxId} (h : Registered r)
    (hc : dispatcherCtx < c) (hn : c < r.ncreated)
    (hu : r.joinable c = true ∨ c ∈ r.workerQueue) : 2 < r.contexts := by
  have hm : c ∈ r.workers := by
    refine Registry.mem_workers.mpr ⟨hn, hc, ?_⟩
    rw [h.counted c hc hn]
    rcases hu with hj | hw
    · rw [hj, Bool.toNat_true]
      omega
    · rw [if_pos hw]
      omega
  have hpos := Finset.card_pos.mpr ⟨c, hm⟩
  rw [h.contexts_eq]
  omega

/-- When only the main context and the dispatcher are counted, all workers have terminated. -/
theorem Registered.terminated_of_contexts {r : Registry} {c : CtxId} (h : Registered r)
    (hle : r.contexts ≤ 2) (hc : dispatcherCtx < c) (hn : c < r.ncreated) :
    r.terminated c = true := by
  by_contra ht
  have hw := h.unreleased c hc ⟨hn, Bool.not_eq_true _ ▸ ht⟩
  exact Nat.not_lt.mpr hle (h.two_lt_contexts hc hn (.inr hw))

structure Core (s : State) : Prop where
  fault_none : s.fault = none
  ready_nodup : s.algo.ready.Nodup
  ready_live : ∀ c ∈ s.algo.ready, s.Live c
  active_not_ready : s.active ∉ s.algo.ready
  sleep_nodup : s.sleepQueue.Nodup
  sleep_live : ∀ c ∈ s.sleepQueue, s.Live c ∧ c ≠ dispatcherCtx
  sleep_not_ready : ∀ c ∈ s.sleepQueue, c ∉ s.algo.ready
  sleep_pc : ∀ c ∈ s.sleepQueue, s.pc c = .waitUntil (s.tp c)
  hook_live : ∀ c q, s.waitHook c = some q → s.Live c ∧ c ≠ dispatcherCtx
  /-- a linked context is ready only after its deadline -/
  hook_timedOut : ∀ c q, s.waitHook c = some q → c ∈ s.algo.ready → s.TimedOut c
  queue_nodup : ∀ d, (s.waitQueue d).Nodup
  queue_hook : ∀ c d, c ∈ s.waitQueue d ↔ s.waitHook c = some (.join d)
  fresh_pc : ∀ c, s.ncreated ≤ c → s.pc c = .running

structure Consistent (s : State) : Prop extends Core s where
  active_live : s.Live s.active
  active_not_sleeping : s.active ∉ s.sleepQueue
  active_timedOut : ∀ q, s.waitHook s.active = some q → s.TimedOut s.active
  /-- nothing joins a terminated context -/
  joined_live : ∀ c d, s.waitHook c = some (.join d) → s.Live d
  dispatcher_ready : s.active ≠ dispatcherCtx → dispatcherCtx ∈ s.algo.ready

theorem State.require_pos {s : State} {p : Prop} [Decidable p] (h : p) : s.require p = s :=
  if_pos h

section Queues

variable {s : State} {c : CtxId}

theorem mem_erase_append {l : List CtxId} {x : CtxId} :
    x ∈ l.erase c ++ [c] ↔ x = c ∨ x ∈ l := by
  rw [List.mem_append, List.mem_singleton]
  constructor
  · rintro (hx | hx)
    · exact .inr (List.mem_of_mem_erase hx)
    · exact .inl hx
  · rintro (hx | hx)
    · exact .inr hx
    · by_cases hc : x = c
      · exact .inr hc
      · exact .inl ((List.mem_erase_of_ne hc).mpr hx)

theorem awakened_eq (hc : c ∉ s.algo.ready) :
    s.awakened c = { s with algo := ⟨s.algo.kind, s.algo.ready ++ [c]⟩ } := by
  simp only [State.awakened, State.require_pos hc, Algo.awakened]

/-- A context that is readied leaves the sleep queue and goes to the end of the ready queue. -/
theorem setReady_eq (hn : s.algo.ready.Nodup) (hc : s.terminated c = false) :
    s.setReady c = { s with
      sleepQueue := s.sleepQueue.erase c
      algo := ⟨s.algo.kind, s.algo.ready.erase c ++ [c]⟩ } := by
  simp only [State.setReady, State.require_pos hc, State.awakened, Algo.awakened]
  rw [State.require_pos hn.not_mem_erase]

theorem Core.setReady (h : Core s) (hl : s.Live c) (hca : c ≠ s.active)
    (hw : ∀ q, s.waitHook c = some q → s.TimedOut c) : Core (s.setReady c) := by
  rw [setReady_eq h.ready_nodup hl.2]
  refine ⟨h.fault_none, ?_, ?_, ?_, h.sleep_nodup.erase c, ?_, ?_, ?_, h.hook_live, ?_,
    h.queue_nodup, h.queue_hook, h.fresh_pc⟩
  · exact List.nodup_append_comm.mp (List.Nodup.cons h.ready_nodup.not_mem_erase (h.ready_nodup.erase c))
  · intro x hx
    rcases mem_erase_append.mp hx with rfl | hx
    · exact hl
    · exact h.ready_live x hx
  · intro hx
    rcases mem_erase_append.mp hx with hx | hx
    · exact hca hx.symm
    · exact h.active_not_ready hx
  · intro x hx
    exact h.sleep_live x (List.mem_of_mem_erase hx)
  · intro x hx hr
    rw [h.sleep_nodup.mem_erase_iff] at hx
    rcases mem_erase_append.mp hr with hr | hr
    · exact hx.1 hr
    · exact h.sleep_not_ready x hx.2 hr
  · intro x hx
    exact h.sleep_pc x (List.mem_of_mem_erase hx)
  · intro x q hq hr
    rcases mem_erase_append.mp hr with rfl | hr
    · exact hw q hq
    · exact h.hook_timedOut x q hq hr

theorem Consistent.setReady (h : Consistent s) (hl : s.Live c) (hca : c ≠ s.active)
    (hw : ∀ q, s.waitHook c = some q → s.TimedOut c) : Consistent (s.setReady c) := by
  have hcore := h.toCore.setReady hl hca hw
  rw [setReady_eq h.ready_nodup hl.2] at hcore ⊢
  refine ⟨hcore, h.active_live, ?_, h.active_timedOut, h.joined_live, ?_⟩
  · intro hx
    exact h.active_not_sleeping (List.mem_of_mem_erase hx)
  · intro hd
    exact mem_erase_append.mpr (.inr (h.dispatcher_ready hd))

theorem waitUnlink_hook {x : CtxId} {q : QueueId}
    (hq : (s.waitUnlink c).waitHook x = some q) : x ≠ c ∧ s.waitHook x = some q := by
  by_cases hx : x = c
  · simp only [State.waitUnlink, hx, Function.update_self, reduceCtorEq] at hq
  · simp only [State.waitUnlink, Function.update_of_ne hx] at hq
    exact ⟨hx, hq⟩

theorem Core.waitUnlink (h : Core s) : Core (s.waitUnlink c) := by
  refine ⟨h.fault_none, h.ready_nodup, h.ready_live, h.active_not_ready, h.sleep_nodup,
    h.sleep_live, h.sleep_not_ready, h.sleep_pc, ?_, ?_, ?_, ?_, h.fresh_pc⟩
  · intro x q hq
    exact h.hook_live x q (waitUnlink_hook hq).2
  · intro x q hq
    exact h.hook_timedOut x q (waitUnlink_hook hq).2
  · intro d
    exact (h.queue_nodup d).erase c
  · intro x d
    simp only [State.waitUnlink]
    rw [(h.queue_nodup d).mem_erase_iff]
    by_cases hx : x = c
    · simp only [hx, ne_eq, not_true_eq_false, false_and, Function.update_self, reduceCtorEq]
    · simp only [ne_eq, hx, not_false_eq_true, true_and, Function.update_of_ne hx]
      exact h.queue_hook x d

theorem Consistent.waitUnlink (h : Consistent s) : Consistent (s.waitUnlink c) := by
  refine ⟨h.toCore.waitUnlink, h.active_live, h.active_not_sleeping, ?_, ?_, h.dispatcher_ready⟩
  · intro q hq
    exact h.active_timedOut q (waitUnlink_hook hq).2
  · intro x d hq
    exact h.joined_live x d (waitUnlink_hook hq).2

end Queues

section Switching

variable {s : State} {c : CtxId} {rest : List CtxId}

theorem resumeNext_eq (hr : s.algo.ready = c :: rest) (hc : s.terminated c = false)
    (readyCtx : Option CtxId) :
    s.resumeNext readyCtx =
      { s with algo := ⟨s.algo.kind, rest⟩ : State }.resume c readyCtx := by
  simp only [State.resumeNext, Algo.pickNext, hr, hc, Bool.false_eq_true, if_false]

theorem Core.switch (h : Core s) (hr : s.algo.ready = c :: rest) :
    Core { s with active := c, algo := ⟨s.algo.kind, rest⟩ } := by
  have hn := h.ready_nodup
  rw [hr, List.nodup_cons] at hn
  have hsub : ∀ x ∈ rest, x ∈ s.algo.ready := by
    intro x hx
    rw [hr]
    exact List.mem_cons_of_mem c hx
  refine ⟨h.fault_none, hn.2, ?_, hn.1, h.sleep_nodup, h.sleep_live, ?_, h.sleep_pc, h.hook_live,
    ?_, h.queue_nodup, h.queue_hook, h.fresh_pc⟩
  · intro x hx
    exact h.ready_live x (hsub x hx)
  · intro x hx hrest
    exact h.sleep_not_ready x hx (hsub x hrest)
  · intro x q hq hrest
    exact h.hook_timedOut x q hq (hsub x hrest)

theorem Core.switch_consistent (h : Core s)
    (hj : ∀ c d, s.waitHook c = some (.join d) → s.Live d)
    (hd : c ≠ dispatcherCtx → dispatcherCtx ∈ s.algo.ready) (hr : s.algo.ready = c :: rest) :
    Consistent { s with active := c, algo := ⟨s.algo.kind, rest⟩ } := by
  have hc : c ∈ s.algo.ready := by
    rw [hr]
    exact List.mem_cons_self
  refine ⟨h.switch hr, h.ready_live c hc, ?_, ?_, hj, ?_⟩
  · intro hs
    exact h.sleep_not_ready c hs hc
  · intro q hq
    exact h.hook_timedOut c q hq hc
  · intro hne
    have hd := hd hne
    rw [hr, List.mem_cons] at hd
    exact hd.resolve_left fun he => hne he.symm

theorem Core.resumeNext (h : Core s)
    (hj : ∀ c d, s.waitHook c = some (.join d) → s.Live d)
    (hd : dispatcherCtx ∈ s.algo.ready) : Consistent (s.resumeNext none) := by
  obtain ⟨c, rest, hr⟩ := List.exists_cons_of_ne_nil (List.ne_nil_of_mem hd)
  have hc : s.Live c := by
    apply h.ready_live c
    rw [hr]
    exact List.mem_cons_self
  rw [resumeNext_eq hr hc.2]
  exact h.switch_consistent hj (fun _ => hd) hr

theorem Consistent.resumeNext (h : Consistent s) (hd : s.active ≠ dispatcherCtx)
    (hw : s.waitHook s.active = none) : Consistent (s.resumeNext (some s.active)) := by
  have hdr := h.dispatcher_ready hd
  obtain ⟨c, rest, hr⟩ := List.exists_cons_of_ne_nil (List.ne_nil_of_mem hdr)
  have hc : c ∈ s.algo.ready := by
    rw [hr]
    exact List.mem_cons_self
  rw [resumeNext_eq hr (h.ready_live c hc).2]
  apply (h.switch_consistent h.joined_live (fun _ => hdr) hr).setReady
  · exact h.active_live
  · intro he
    exact h.active_not_ready (he ▸ hc)
  · intro q hq
    rw [show s.waitHook s.active = some q from hq] at hw
    exact absurd hw (Option.some_ne_none q)

theorem waitLink_eq {ctx : CtxId} (hw : s.waitHook ctx = none) (q : QueueId) :
    s.waitLink ctx q = { s with
      waitHook := Function.update s.waitHook ctx (some q)
      waitQueue := fun d => if q = .join d then s.waitQueue d ++ [ctx] else s.waitQueue d } := by
  simp only [State.waitLink, State.require_pos hw]
  cases q with
  | primitive q => simp only [reduceCtorEq, if_false]
  | join c =>
    have hq : Function.update s.waitQueue c (s.waitQueue c ++ [ctx]) = fun d =>
        if QueueId.join c = QueueId.join d then s.waitQueue d ++ [ctx] else s.waitQueue d := by
      funext d
      by_cases hd : d = c
      · simp only [hd, Function.update_self, if_true]
      · simp only [Function.update_of_ne hd, QueueId.join.injEq, Ne.symm hd, if_false]
    simp only [hq]

theorem Core.waitLink (h : Core s) (hl : s.Live s.active) (hd : s.active ≠ dispatcherCtx)
    (hw : s.waitHook s.active = none) (q : QueueId) : Core (s.waitLink s.active q) := by
  have hnot : ∀ d, s.active ∉ s.waitQueue d := by
    intro d hm
    rw [h.queue_hook, hw] at hm
    exact absurd hm.symm (Option.some_ne_none _)
  rw [waitLink_eq hw]
  refine ⟨h.fault_none, h.ready_nodup, h.ready_live, h.active_not_ready, h.sleep_nodup,
    h.sleep_live, h.sleep_not_ready, h.sleep_pc, ?_, ?_, ?_, ?_, h.fresh_pc⟩
  · intro x p hp
    by_cases hx : x = s.active
    · rw [hx]
      exact ⟨hl, hd⟩
    · simp only [Function.update_of_ne hx] at hp
      exact h.hook_live x p hp
  · intro x p hp hr
    have hx : x ≠ s.active := fun he => h.active_not_ready (he ▸ hr)
    simp only [Function.update_of_ne hx] at hp
    exact h.hook_timedOut x p hp hr
  · intro d
    by_cases hq : q = .join d
    · simp only [if_pos hq]
      exact List.nodup_append_comm.mp (List.Nodup.cons (hnot d) (h.queue_nodup d))
    · simp only [if_neg hq]
      exact h.queue_nodup d
  · intro x d
    by_cases hx : x = s.active
    · rw [hx]
      by_cases hq : q = .join d
      · simp only [hq, if_true, Function.update_self, List.mem_append, List.mem_singleton,
          or_true]
      · simp only [hq, if_false, Function.update_self, hnot d, Option.some.injEq]
    · simp only [Function.update_of_ne hx]
      rw [← h.queue_hook x d]
      by_cases hq : q = .join d
      · simp only [if_pos hq, List.mem_append, List.mem_singleton, hx, or_false]
      · simp only [if_neg hq]

theorem Core.setPc (h : Core s) (hl : s.Live s.active) (hs : s.active ∉ s.sleepQueue) (p : Pc) :
    Core { s with pc := Function.update s.pc s.active p } := by
  refine ⟨h.fault_none, h.ready_nodup, h.ready_live, h.active_not_ready, h.sleep_nodup,
    h.sleep_live, h.sleep_not_ready, ?_, h.hook_live, ?_, h.queue_nodup, h.queue_hook, ?_⟩
  · intro x hx
    have hne : x ≠ s.active := fun he => hs (he ▸ hx)
    simp only [Function.update_of_ne hne]
    exact h.sleep_pc x hx
  · intro x q hq hr
    have hne : x ≠ s.active := fun he => h.active_not_ready (he ▸ hr)
    obtain ⟨t, hp, ht⟩ := h.hook_timedOut x q hq hr
    exact ⟨t, by simpa only [Function.update_of_ne hne] using hp, ht⟩
  · intro x hx
    have hne : x ≠ s.active := fun he => Nat.not_le.mpr hl.1 (he ▸ hx)
    simp only [Function.update_of_ne hne]
    exact h.fresh_pc x hx

theorem Core.sleepLink (h : Core s) (sleepTp : TimePoint) (hl : s.Live s.active)
    (hd : s.active ≠ dispatcherCtx) (hs : s.active ∉ s.sleepQueue)
    (hp : s.pc s.active = .waitUntil sleepTp) : Core (s.sleepLink s.active sleepTp) := by
  refine ⟨h.fault_none, h.ready_nodup, h.ready_live, h.active_not_ready, ?_, ?_, ?_, ?_,
    h.hook_live, h.hook_timedOut, h.queue_nodup, h.queue_hook, h.fresh_pc⟩
  · exact (List.perm_orderedInsert _ s.active s.sleepQueue).nodup_iff.mpr
      (List.nodup_cons.mpr ⟨hs, h.sleep_nodup⟩)
  · intro x hx
    rcases (List.mem_orderedInsert _).mp hx with rfl | hx
    · exact ⟨hl, hd⟩
    · exact h.sleep_live x hx
  · intro x hx
    rcases (List.mem_orderedInsert _).mp hx with rfl | hx
    · exact h.active_not_ready
    · exact h.sleep_not_ready x hx
  · intro x hx
    rcases (List.mem_orderedInsert _).mp hx with rfl | hx
    · simp only [State.sleepLink, Function.update_self, hp]
    · have hne : x ≠ s.active := fun he => hs (he ▸ hx)
      simp only [State.sleepLink, Function.update_of_ne hne]
      exact h.sleep_pc x hx

end Switching

section Registry

variable {s : State} {c : CtxId}

/-- The queues only ask of the registry that the contexts in them are live. -/
theorem Core.withRegistry (h : Core s) (r : Registry) (hn : s.ncreated ≤ r.ncreated)
    (hl : ∀ c, s.Live c → c ∈ s.algo.ready ∨ c ∈ s.sleepQueue ∨ (∃ q, s.waitHook c = some q) →
      r.Live c) : Core { s with toRegistry := r } := by
  refine ⟨h.fault_none, h.ready_nodup, ?_, h.active_not_ready, h.sleep_nodup, ?_,
    h.sleep_not_ready, h.sleep_pc, ?_, h.hook_timedOut, h.queue_nodup, h.queue_hook, ?_⟩
  · intro x hx
    exact hl x (h.ready_live x hx) (.inl hx)
  · intro x hx
    have hx' := h.sleep_live x hx
    exact ⟨hl x hx'.1 (.inr (.inl hx)), hx'.2⟩
  · intro x q hq
    have hx := h.hook_live x q hq
    exact ⟨hl x hx.1 (.inr (.inr ⟨q, hq⟩)), hx.2⟩
  · intro x hx
    exact h.fresh_pc x (Nat.le_trans hn hx)

theorem Consistent.withRegistry (h : Consistent s) (r : Registry) (hn : s.ncreated ≤ r.ncreated)
    (hl : ∀ c, s.Live c → r.Live c) : Consistent { s with toRegistry := r } := by
  refine ⟨h.toCore.withRegistry r hn fun c hc _ => hl c hc, hl _ h.active_live,
    h.active_not_sleeping, h.active_timedOut, ?_, h.dispatcher_ready⟩
  intro x d hq
  exact hl d (h.joined_live x d hq)

theorem Consistent.not_linked (h : Consistent s) (hp : s.pc s.active = .running) :
    s.waitHook s.active = none := by
  rcases hw : s.waitHook s.active with _ | q
  · rfl
  · obtain ⟨t, ht, _⟩ := h.active_timedOut q hw
    rw [hp] at ht
    exact absurd ht (by simp only [reduceCtorEq, not_false_eq_true])

theorem Consistent.unlinked (h : Consistent s) (hc : s.terminated c = true) :
    s.waitQueue c = [] ∧ c ∉ s.algo.ready ∧ c ∉ s.sleepQueue ∧ s.waitHook c = none := by
  have hdead : ¬ s.Live c := by
    rintro ⟨_, hl⟩
    rw [hc] at hl
    exact absurd hl (by simp only [Bool.true_eq_false, not_false_eq_true])
  refine ⟨?_, fun hr => hdead (h.ready_live c hr), fun hs => hdead (h.sleep_live c hs).1, ?_⟩
  · apply List.eq_nil_iff_forall_not_mem.mpr
    intro x hx
    exact hdead (h.joined_live x c ((h.queue_hook x c).mp hx))
  · rcases hw : s.waitHook c with _ | q
    · rfl
    · exact absurd (h.hook_live c q hw).1 hdead

theorem release_eq (hz : s.useCount c - 1 = 0 → s.waitQueue c = [] ∧ c ∉ s.algo.ready ∧
      c ∉ s.sleepQueue ∧ s.waitHook c = none) :
    s.release c = { s with
      useCount := Function.update s.useCount c (s.useCount c - 1)
      contexts := if s.useCount c - 1 = 0 then s.contexts - 1 else s.contexts } := by
  simp only [State.release, Function.update_self]
  by_cases hc : s.useCount c - 1 = 0
  · simp only [hc, if_true]
    rw [State.require_pos (hz hc)]
  · simp only [hc, if_false]

/-- The invariant of every reachable state. -/
structure Scheduled (s : State) : Prop extends Consistent s where
  registered : Registered s.toRegistry

theorem Scheduled.reset (h : Scheduled s) : Scheduled (s.reset c) := by
  obtain ⟨hc, hr⟩ := h
  by_cases hj : s.joinable c = true
  · have hw := hr.joinable_worker c hj
    have hcount := hr.counted c hw.1 hw.2
    have hused : c ∈ s.workers := by
      refine Registry.mem_workers.mpr ⟨hw.2, hw.1, ?_⟩
      rw [hcount, hj, Bool.toNat_true]
      omega
    rw [State.reset, if_pos hj, release_eq]
    · refine ⟨hc.withRegistry _ (Nat.le_refl _) fun _ hl => hl, ?_⟩
      obtain ⟨hsys, hwn, hwm, htn, htm, htw, hjw, hun, hct, hcx⟩ := hr
      refine ⟨hsys, hwn, hwm, htn, htm, htw, ?_, hun, ?_, Registry.contexts_release hcx hused⟩
      · intro x hx
        by_cases hxc : x = c
        · exact hxc ▸ hw
        · simp only [Function.update_of_ne hxc] at hx
          exact hjw x hx
      · intro x hx hxn
        by_cases hxc : x = c
        · subst hxc
          simp only [Function.update_self, hcount, hj, Bool.toNat_true, Bool.toNat_false]
          omega
        · simp only [Function.update_of_ne hxc]
          exact hct x hx hxn
    · intro hz
      have hnot : c ∉ s.workerQueue := by
        intro hm
        simp only [hcount, hj, Bool.toNat_true, hm, if_true] at hz
        omega
      apply hc.unlinked
      by_contra ht
      exact hnot (hr.unreleased c hw.1 ⟨hw.2, Bool.not_eq_true _ ▸ ht⟩)
  · rw [State.reset, if_neg hj]
    exact ⟨hc, hr⟩

theorem Scheduled.releaseTerminated {l : List CtxId} (h : Scheduled s)
    (hl : s.terminatedQueue = l) : Scheduled (s.releaseTerminated l) := by
  induction l generalizing s with
  | nil =>
    obtain ⟨hc, hsys, hwn, hwm, htn, htm, htw, hjw, hun, hct, hcx⟩ := h
    refine ⟨hc.withRegistry _ (Nat.le_refl _) fun _ hx => hx,
      hsys, hwn, hwm, ?_, ?_, htw, hjw, hun, hct, hcx⟩
    · exact List.nodup_nil
    · intro x hx
      exact absurd hx List.not_mem_nil
  | cons c rest ih =>
    obtain ⟨hc, hr⟩ := h
    have hmem : c ∈ s.terminatedQueue := by
      rw [hl]
      exact List.mem_cons_self
    obtain ⟨ht, hworker⟩ := hr.terminated_mem c hmem
    have hlt := hr.terminated_worker c ht
    have hfree := hc.unlinked ht
    have hcount := hr.counted c hlt.1 hlt.2
    have hused : c ∈ s.workers := by
      refine Registry.mem_workers.mpr ⟨hlt.2, hlt.1, ?_⟩
      rw [hcount, if_pos hworker]
      omega
    have hmain : c ≠ mainCtx := by
      rintro rfl
      exact absurd hlt.1 (by decide)
    rw [State.releaseTerminated, State.require_pos
      ⟨hmain, Nat.ne_of_gt hlt.1, ht, hfree.2.1, hfree.2.2.1⟩]
    rw [release_eq]
    apply ih
    · refine ⟨hc.withRegistry _ (Nat.le_refl _) fun _ hx => hx, ?_⟩
      obtain ⟨hsys, hwn, hwm, htn, htm, htw, hjw, hun, hct, hcx⟩ := hr
      rw [hl, List.nodup_cons] at htn
      refine ⟨hsys, hwn.erase c, ?_, htn.2, ?_, htw, hjw, ?_, ?_,
        Registry.contexts_release hcx hused⟩
      · intro x hx
        exact hwm x (List.mem_of_mem_erase hx)
      · intro x hx
        have hxc : x ≠ c := fun he => htn.1 (he ▸ hx)
        have hx' := htm x (by rw [hl]; exact List.mem_cons_of_mem c hx)
        exact ⟨hx'.1, (List.mem_erase_of_ne hxc).mpr hx'.2⟩
      · intro x hx hlive
        have hxc : x ≠ c := by
          rintro rfl
          rw [hlive.2] at ht
          exact absurd ht Bool.false_ne_true
        exact (List.mem_erase_of_ne hxc).mpr (hun x hx hlive)
      · intro x hx hxn
        by_cases hxc : x = c
        · subst hxc
          simp only [Function.update_self, hcount, hworker, if_true, hwn.not_mem_erase, if_false]
          omega
        · simp only [Function.update_of_ne hxc, List.mem_erase_of_ne hxc]
          exact hct x hx hxn
    · rfl
    · exact fun _ => hfree

end Registry

section Frames

variable (s : State) (c : CtxId)

theorem require_registry (p : Prop) [Decidable p] :
    (s.require p).toRegistry = s.toRegistry := by
  unfold State.require
  split <;> rfl

theorem setReady_registry : (s.setReady c).toRegistry = s.toRegistry := by
  simp only [State.setReady, State.awakened, require_registry]

theorem resume_registry (readyCtx : Option CtxId) :
    (s.resume c readyCtx).toRegistry = s.toRegistry := by
  cases readyCtx with
  | none => rfl
  | some r => exact setReady_registry _ r

theorem resumeNext_registry (readyCtx : Option CtxId) :
    (s.resumeNext readyCtx).toRegistry = s.toRegistry := by
  unfold State.resumeNext
  split
  · rfl
  · split
    · rfl
    · exact resume_registry _ _ readyCtx

theorem waitLink_registry (q : QueueId) : (s.waitLink c q).toRegistry = s.toRegistry := by
  unfold State.waitLink
  cases q with
  | primitive q => exact require_registry s _
  | join d => exact require_registry s _

theorem wake_registry : (s.wake c).toRegistry = s.toRegistry := by
  rw [State.wake, setReady_registry]
  exact require_registry s _

theorem notifyJoiners_registry (l : List CtxId) :
    (s.notifyJoiners l).toRegistry = s.toRegistry := by
  induction l generalizing s with
  | nil => rfl
  | cons c rest ih => rw [State.notifyJoiners, ih, wake_registry]

theorem sleep2ready_registry (now : TimePoint) (l : List CtxId) :
    (s.sleep2ready now l).toRegistry = s.toRegistry := by
  induction l generalizing s with
  | nil => rfl
  | cons c rest ih =>
    simp only [State.sleep2ready]
    split
    · rw [ih]
      simp only [State.awakened, require_registry]
    · exact require_registry s _

end Frames

section Actions

variable {s : State} {c : CtxId}

theorem Scheduled.yield (h : Scheduled s) (hu : s.InUser) : Scheduled s.yield := by
  obtain ⟨hc, hr⟩ := h
  rw [State.yield, State.require_pos
    ⟨hc.active_live.2, hc.active_not_ready, hc.active_not_sleeping⟩]
  refine ⟨hc.resumeNext hu.1 (hc.not_linked hu.2), ?_⟩
  rw [resumeNext_registry]
  exact hr

theorem Consistent.joined_waitLink (h : Consistent s) (hu : s.InUser) (q : Nat) {x d : CtxId}
    (hx : (s.waitLink s.active (.primitive q)).waitHook x = some (.join d)) : s.Live d := by
  rw [waitLink_eq (h.not_linked hu.2)] at hx
  by_cases hxa : x = s.active
  · simp only [hxa, Function.update_self, Option.some.injEq, reduceCtorEq] at hx
  · simp only [Function.update_of_ne hxa] at hx
    exact h.joined_live x d hx

theorem Scheduled.suspend (h : Scheduled s) (hu : s.InUser) (q : Nat) :
    Scheduled (s.suspend q) := by
  obtain ⟨hc, hr⟩ := h
  have hw := hc.not_linked hu.2
  constructor
  · apply (hc.toCore.waitLink hc.active_live hu.1 hw (.primitive q)).resumeNext
    · intro x d hx
      have hd := hc.joined_waitLink hu q hx
      simpa only [waitLink_registry] using hd
    · rw [waitLink_eq hw]
      exact hc.dispatcher_ready hu.1
  · rw [State.suspend, resumeNext_registry, waitLink_registry]
    exact hr

theorem Core.waitUntil (h : Core s) (sleepTp : TimePoint) (hl : s.Live s.active)
    (hd : s.active ≠ dispatcherCtx) (hs : s.active ∉ s.sleepQueue)
    (hj : ∀ c d, s.waitHook c = some (.join d) → s.Live d)
    (hdr : dispatcherCtx ∈ s.algo.ready) :
    Consistent (({ s with pc := Function.update s.pc s.active (.waitUntil sleepTp) : State
      }.sleepLink s.active sleepTp).resumeNext none) := by
  have hpc := h.setPc hl hs (.waitUntil sleepTp)
  have hsleep := hpc.sleepLink sleepTp hl hd hs (Function.update_self ..)
  exact hsleep.resumeNext hj hdr

theorem Scheduled.waitUntil (h : Scheduled s) (hu : s.InUser) (q : Option Nat)
    (sleepTp : TimePoint) : Scheduled (s.waitUntil q sleepTp) := by
  obtain ⟨hc, hr⟩ := h
  cases q with
  | none =>
    rw [State.waitUntil, State.require_pos ⟨hc.active_live.2, hc.active_not_sleeping⟩]
    refine ⟨hc.toCore.waitUntil sleepTp hc.active_live hu.1 hc.active_not_sleeping
      hc.joined_live (hc.dispatcher_ready hu.1), ?_⟩
    rw [resumeNext_registry]
    exact hr
  | some q =>
    have hw := hc.not_linked hu.2
    have hcore := hc.toCore.waitLink hc.active_live hu.1 hw (.primitive q)
    have hj : ∀ x d, (s.waitLink s.active (.primitive q)).waitHook x = some (.join d) → s.Live d :=
      fun x d => hc.joined_waitLink hu q
    simp only [State.waitUntil, waitLink_eq hw] at hcore hj ⊢
    rw [State.require_pos ⟨hc.active_live.2, hc.active_not_sleeping⟩]
    refine ⟨hcore.waitUntil sleepTp hc.active_live hu.1 hc.active_not_sleeping hj
      (hc.dispatcher_ready hu.1), ?_⟩
    rw [resumeNext_registry]
    exact hr

theorem Core.wake (h : Core s) (hl : s.Live c) (hca : c ≠ s.active) : Core (s.wake c) := by
  rw [State.wake, State.require_pos hca]
  apply h.waitUnlink.setReady hl hca
  intro q hq
  exact absurd rfl (waitUnlink_hook hq).1

theorem Scheduled.wake (h : Scheduled s) (hu : s.InUser) (hlinked : s.waitHook c ≠ none) :
    Scheduled (s.wake c) := by
  obtain ⟨hc, hr⟩ := h
  obtain ⟨q, hq⟩ := Option.ne_none_iff_exists'.mp hlinked
  have hca : c ≠ s.active := by
    rintro rfl
    rw [hc.not_linked hu.2] at hq
    exact Option.some_ne_none q hq.symm
  refine ⟨?_, ?_⟩
  · rw [State.wake, State.require_pos hca]
    apply hc.waitUnlink.setReady (hc.hook_live c q hq).1 hca
    intro p hp
    exact absurd rfl (waitUnlink_hook hp).1
  · rw [wake_registry]
    exact hr

theorem Scheduled.join_live (h : Scheduled s) (hu : s.InUser) (hlive : s.Live c) :
    Scheduled (s.join c) := by
  obtain ⟨hc, hr⟩ := h
  have hw := hc.not_linked hu.2
  have hcore := hc.toCore.waitLink hc.active_live hu.1 hw (.join c)
  rw [State.join, if_neg (by simp [hlive.2])]
  rw [waitLink_eq hw] at hcore ⊢
  constructor
  · apply (hcore.setPc hc.active_live hc.active_not_sleeping (.joining c)).resumeNext
    · intro x d hx
      by_cases hxa : x = s.active
      · simp only [hxa, Function.update_self, Option.some.injEq, QueueId.join.injEq] at hx
        exact hx ▸ hlive
      · simp only [Function.update_of_ne hxa] at hx
        exact hc.joined_live x d hx
    · exact hc.dispatcher_ready hu.1
  · rw [resumeNext_registry]
    exact hr

theorem Scheduled.join (h : Scheduled s) (hu : s.InUser) (hj : s.joinable c = true) :
    Scheduled (s.join c) := by
  by_cases ht : s.terminated c = true
  · rw [State.join, if_pos ht]
    exact h.reset
  · exact h.join_live hu ⟨(h.registered.joinable_worker c hj).2, Bool.not_eq_true _ ▸ ht⟩

theorem Scheduled.create (h : Scheduled s) (hu : s.InUser) (policy : Launch) :
    Scheduled (s.create policy) := by
  obtain ⟨hc, hr⟩ := h
  have hdead : ¬ s.Live s.ncreated := fun hl => Nat.lt_irrefl _ hl.1
  have hready : s.ncreated ∉ s.algo.ready := fun hm => hdead (hc.ready_live _ hm)
  have hsleep : s.ncreated ∉ s.sleepQueue := fun hm => hdead (hc.sleep_live _ hm).1
  have hhook : s.waitHook s.ncreated = none := by
    rcases hw : s.waitHook s.ncreated with _ | q
    · rfl
    · exact absurd (hc.hook_live _ q hw).1 hdead
  have hworker : s.ncreated ∉ s.workerQueue := fun hm => Nat.lt_irrefl _ (hr.worker_mem _ hm).2
  have hterm : s.ncreated ∉ s.terminatedQueue := fun hm => hworker (hr.terminated_mem _ hm).2
  have hflag : s.terminated s.ncreated = false := by
    rw [← Bool.not_eq_true]
    intro ht
    exact Nat.lt_irrefl _ (hr.terminated_worker _ ht).2
  have hne : s.ncreated ≠ s.active := fun he => hdead (he ▸ hc.active_live)
  simp only [State.create]
  rw [State.require_pos ⟨hready, hsleep, hterm, hhook, hworker⟩]
  -- the registry with the new context
  have hc' := hc.withRegistry { s.toRegistry with
    ncreated := s.ncreated + 1
    contexts := s.contexts + 1
    useCount := Function.update s.useCount s.ncreated 2
    joinable := Function.update s.joinable s.ncreated true
    workerQueue := s.workerQueue ++ [s.ncreated] } (Nat.le_succ _)
    fun x hx => ⟨Nat.lt_succ_of_lt hx.1, hx.2⟩
  have hr' : Registered { s.toRegistry with
      ncreated := s.ncreated + 1
      contexts := s.contexts + 1
      useCount := Function.update s.useCount s.ncreated 2
      joinable := Function.update s.joinable s.ncreated true
      workerQueue := s.workerQueue ++ [s.ncreated] } := by
    obtain ⟨hsys, hwn, hwm, htn, htm, htw, hjw, hun, hct, hcx⟩ := hr
    refine ⟨Nat.lt_succ_of_lt hsys, ?_, ?_, htn, ?_, ?_, ?_, ?_, ?_, ?_⟩
    · exact List.nodup_append_comm.mp (List.Nodup.cons hworker hwn)
    · intro x hx
      rcases List.mem_append.mp hx with hx | hx
      · exact ⟨(hwm x hx).1, Nat.lt_succ_of_lt (hwm x hx).2⟩
      · rw [List.mem_singleton.mp hx]
        exact ⟨hsys, Nat.lt_succ_self _⟩
    · intro x hx
      exact ⟨(htm x hx).1, List.mem_append_left _ (htm x hx).2⟩
    · intro x hx
      exact ⟨(htw x hx).1, Nat.lt_succ_of_lt (htw x hx).2⟩
    · intro x hx
      by_cases hxn : x = s.ncreated
      · rw [hxn]
        exact ⟨hsys, Nat.lt_succ_self _⟩
      · simp only [Function.update_of_ne hxn] at hx
        exact ⟨(hjw x hx).1, Nat.lt_succ_of_lt (hjw x hx).2⟩
    · intro x hx hl
      rcases Nat.lt_succ_iff_lt_or_eq.mp hl.1 with hlt | he
      · exact List.mem_append_left _ (hun x hx ⟨hlt, hl.2⟩)
      · exact List.mem_append_right _ (List.mem_singleton.mpr he)
    · intro x hx hlt
      by_cases hxn : x = s.ncreated
      · simp only [hxn, Function.update_self, Bool.toNat_true, List.mem_append,
          List.mem_singleton, or_true, if_true]
      · have hlt' := Nat.lt_of_le_of_ne (Nat.lt_succ_iff.mp hlt) hxn
        simp only [Function.update_of_ne hxn, List.mem_append, List.mem_singleton, hxn, or_false]
        exact hct x hx hlt'
    · rw [Registry.workers_create hsys, Finset.card_insert_of_notMem Registry.not_mem_workers]
      exact congrArg (· + 1) hcx
  cases policy with
  | post =>
    refine ⟨hc'.setReady ⟨Nat.lt_succ_self _, hflag⟩ hne ?_, ?_⟩
    · intro q hq
      rw [show s.waitHook s.ncreated = some q from hq] at hhook
      exact absurd hhook (Option.some_ne_none q)
    · rw [setReady_registry]
      exact hr'
  | dispatch =>
    have hswitch : Consistent { s with
        ncreated := s.ncreated + 1
        contexts := s.contexts + 1
        useCount := Function.update s.useCount s.ncreated 2
        joinable := Function.update s.joinable s.ncreated true
        workerQueue := s.workerQueue ++ [s.ncreated]
        active := s.ncreated } := by
      refine ⟨⟨hc'.fault_none, hc'.ready_nodup, hc'.ready_live, hready, hc'.sleep_nodup,
        hc'.sleep_live, hc'.sleep_not_ready, hc'.sleep_pc, hc'.hook_live, hc'.hook_timedOut,
        hc'.queue_nodup, hc'.queue_hook, hc'.fresh_pc⟩, ⟨Nat.lt_succ_self _, hflag⟩, hsleep, ?_,
        hc'.joined_live, fun _ => hc.dispatcher_ready hu.1⟩
      intro q hq
      rw [show s.waitHook s.ncreated = some q from hq] at hhook
      exact absurd hhook (Option.some_ne_none q)
    refine ⟨hswitch.setReady hc'.active_live hne.symm ?_, ?_⟩
    · intro q hq
      exact hc'.active_timedOut q hq
    · rw [resume_registry]
      exact hr'

end Actions

section Termination

variable {s : State} {c : CtxId}

/-- The active context is marked terminated and readies the contexts that join it. -/
structure Leaving (s : State) : Prop extends Core s where
  active_not_sleeping : s.active ∉ s.sleepQueue
  not_linked : s.waitHook s.active = none
  joined : ∀ c d, s.waitHook c = some (.join d) → d = s.active ∨ s.Live d
  dispatcher_ready : dispatcherCtx ∈ s.algo.ready

theorem wake_eq (hn : s.algo.ready.Nodup) (hc : s.terminated c = false) (hca : c ≠ s.active) :
    s.wake c = { s with
      waitHook := Function.update s.waitHook c none
      waitQueue := fun d => (s.waitQueue d).erase c
      sleepQueue := s.sleepQueue.erase c
      algo := ⟨s.algo.kind, s.algo.ready.erase c ++ [c]⟩ } := by
  rw [State.wake, State.require_pos hca]
  exact setReady_eq hn hc

theorem Leaving.wake (h : Leaving s) (hl : s.Live c) (hca : c ≠ s.active) :
    Leaving (s.wake c) := by
  have hcore := h.toCore.wake hl hca
  have heq := wake_eq h.ready_nodup hl.2 hca
  have hhook : ∀ x q, (s.wake c).waitHook x = some q → s.waitHook x = some q := by
    intro x q hq
    rw [heq] at hq
    exact (waitUnlink_hook hq).2
  constructor
  · exact hcore
  · rw [heq]
    exact fun hx => h.active_not_sleeping (List.mem_of_mem_erase hx)
  · rw [heq]
    simp only [Function.update_of_ne hca.symm]
    exact h.not_linked
  · intro x d hq
    have hd := h.joined x d (hhook x _ hq)
    rw [heq]
    exact hd
  · rw [heq]
    exact mem_erase_append.mpr (.inr h.dispatcher_ready)

theorem Leaving.wake_head {rest : List CtxId} (h : Leaving s)
    (hl : s.waitQueue s.active = c :: rest) :
    s.Live c ∧ c ≠ s.active ∧ (s.wake c).waitQueue (s.wake c).active = rest := by
  have hmem : c ∈ s.waitQueue s.active := by
    rw [hl]
    exact List.mem_cons_self
  have hq := (h.queue_hook c s.active).mp hmem
  have hlive := (h.hook_live c _ hq).1
  have hca : c ≠ s.active := by
    rintro rfl
    rw [h.not_linked] at hq
    exact Option.some_ne_none _ hq.symm
  refine ⟨hlive, hca, ?_⟩
  rw [wake_eq h.ready_nodup hlive.2 hca]
  simp only [hl, List.erase_cons_head]

theorem Leaving.notifyJoiners {l : List CtxId} (h : Leaving s)
    (hl : s.waitQueue s.active = l) :
    Leaving (s.notifyJoiners l) ∧ (s.notifyJoiners l).active = s.active ∧
      (s.notifyJoiners l).waitQueue s.active = [] := by
  induction l generalizing s with
  | nil => exact ⟨h, rfl, hl⟩
  | cons c rest ih =>
    obtain ⟨hlive, hca, hrest⟩ := h.wake_head hl
    have hact : (s.wake c).active = s.active := by
      rw [wake_eq h.ready_nodup hlive.2 hca]
    obtain ⟨hi, ha, hempty⟩ := ih (h.wake hlive hca) hrest
    rw [hact] at ha hempty
    exact ⟨hi, ha, hempty⟩

theorem Leaving.schedulerSetTerminated (h : Leaving s) (hd : dispatcherCtx < s.active)
    (ht : s.terminated s.active = true) (hempty : s.waitQueue s.active = []) :
    Consistent s.schedulerSetTerminated ∧ s.schedulerSetTerminated.toRegistry =
      { s.toRegistry with terminatedQueue := s.terminatedQueue ++ [s.active] } := by
  have hm : s.active ≠ mainCtx := Nat.ne_of_gt (Nat.lt_of_le_of_lt (Nat.zero_le _) hd)
  rw [State.schedulerSetTerminated, State.require_pos ⟨hm, Nat.ne_of_gt hd, ht,
    h.active_not_ready, h.active_not_sleeping, h.not_linked⟩]
  constructor
  · apply (h.toCore.withRegistry { s.toRegistry with
        terminatedQueue := s.terminatedQueue ++ [s.active] } (Nat.le_refl _)
      fun x hx _ => hx).resumeNext
    · intro x d hq
      rcases h.joined x d hq with hda | hl
      · have hx := (h.queue_hook x d).mpr hq
        rw [hda, hempty] at hx
        exact absurd hx List.not_mem_nil
      · exact hl
    · exact h.dispatcher_ready
  · rw [resumeNext_registry]

theorem Registered.setTerminated {r : Registry} (h : Registered r) (hc : dispatcherCtx < c)
    (hl : r.Live c) : Registered { r with
      terminated := Function.update r.terminated c true
      terminatedQueue := r.terminatedQueue ++ [c] } := by
  obtain ⟨hsys, hwn, hwm, htn, htm, htw, hjw, hun, hct, hcx⟩ := h
  refine ⟨hsys, hwn, hwm, ?_, ?_, ?_, hjw, ?_, hct, hcx⟩
  · refine List.nodup_append_comm.mp (List.Nodup.cons (fun hm => ?_) htn)
    have ht := (htm c hm).1
    rw [hl.2] at ht
    exact Bool.false_ne_true ht
  · intro x hx
    by_cases hxc : x = c
    · rw [hxc]
      exact ⟨Function.update_self .., hun c hc hl⟩
    · rcases List.mem_append.mp hx with hx | hx
      · simp only [Function.update_of_ne hxc]
        exact htm x hx
      · exact absurd (List.mem_singleton.mp hx) hxc
  · intro x hx
    by_cases hxc : x = c
    · rw [hxc]
      exact ⟨hc, hl.1⟩
    · simp only [Function.update_of_ne hxc] at hx
      exact htw x hx
  · intro x hx hlive
    by_cases hxc : x = c
    · rw [hxc]
      exact hun c hc hl
    · exact hun x hx ⟨hlive.1, by simpa only [Function.update_of_ne hxc] using hlive.2⟩

theorem Consistent.leaving (h : Consistent s) (hu : s.InUser) :
    Leaving { s with terminated := Function.update s.terminated s.active true } := by
  have hw := h.not_linked hu.2
  refine ⟨h.toCore.withRegistry _ (Nat.le_refl _) ?_, h.active_not_sleeping, hw, ?_,
    h.dispatcher_ready hu.1⟩
  · intro x hx hin
    have hxa : x ≠ s.active := by
      rintro rfl
      rcases hin with hin | hin | ⟨q, hin⟩
      · exact h.active_not_ready hin
      · exact h.active_not_sleeping hin
      · rw [hw] at hin
        exact Option.some_ne_none q hin.symm
    exact ⟨hx.1, by simpa only [Function.update_of_ne hxa] using hx.2⟩
  · intro x d hq
    by_cases hd : d = s.active
    · exact .inl hd
    · have hl := h.joined_live x d hq
      exact .inr ⟨hl.1, by simpa only [Function.update_of_ne hd] using hl.2⟩

theorem Consistent.setTerminated (h : Consistent s) (hu : s.InUser) (hm : s.active ≠ mainCtx) :
    Consistent s.setTerminated ∧ s.setTerminated.toRegistry = { s.toRegistry with
      terminated := Function.update s.terminated s.active true
      terminatedQueue := s.terminatedQueue ++ [s.active] } := by
  have hworker : dispatcherCtx < s.active :=
    Nat.lt_of_le_of_ne (Nat.pos_of_ne_zero hm) hu.1.symm
  obtain ⟨hi, ha, hempty⟩ := (h.leaving hu).notifyJoiners rfl
  have hreg := notifyJoiners_registry
    { s with terminated := Function.update s.terminated s.active true } (s.waitQueue s.active)
  have hexit := hi.schedulerSetTerminated (by rw [ha]; exact hworker)
    (by rw [ha, hreg]; exact Function.update_self ..) (by rw [ha]; exact hempty)
  refine ⟨hexit.1, ?_⟩
  rw [State.setTerminated, hexit.2, hreg, ha]

theorem Scheduled.setTerminated (h : Scheduled s) (hu : s.InUser) (hm : s.active ≠ mainCtx) :
    Scheduled s.setTerminated := by
  have hworker : dispatcherCtx < s.active :=
    Nat.lt_of_le_of_ne (Nat.pos_of_ne_zero hm) hu.1.symm
  obtain ⟨hc, hr⟩ := h.toConsistent.setTerminated hu hm
  refine ⟨hc, ?_⟩
  rw [hr]
  exact h.registered.setTerminated hworker h.active_live

end Termination

section Rounds

variable {s : State} {c : CtxId}

theorem moveReady_eq {l : List CtxId} (hn : (s.algo.ready ++ l).Nodup) :
    s.moveReady l = { s with algo := ⟨s.algo.kind, s.algo.ready ++ l⟩ } := by
  induction l generalizing s with
  | nil => simp only [State.moveReady, List.append_nil]
  | cons c rest ih =>
    have hc : c ∉ s.algo.ready := by
      intro hm
      exact (List.nodup_append.mp hn).2.2 c hm c List.mem_cons_self rfl
    rw [State.moveReady, awakened_eq hc, ih]
    · simp only [List.append_assoc, List.singleton_append]
    · simpa only [List.append_assoc, List.singleton_append] using hn

theorem setAlgo_eq (hn : s.algo.ready.Nodup) (kind : AlgoKind) :
    s.setAlgo kind = { s with algo := ⟨kind, s.algo.ready⟩ } := by
  rw [State.setAlgo, moveReady_eq]
  · rfl
  · exact hn

theorem Scheduled.setAlgo (h : Scheduled s) (kind : AlgoKind) : Scheduled (s.setAlgo kind) := by
  obtain ⟨⟨⟨hf, hrn, hrl, har, hsn, hsl, hsr, hsp, hhl, hht, hqn, hqh, hfp⟩, hal, has, hat, hj, hd⟩,
    hr⟩ := h
  rw [setAlgo_eq hrn]
  exact ⟨⟨⟨hf, hrn, hrl, har, hsn, hsl, hsr, hsp, hhl, hht, hqn, hqh, hfp⟩, hal, has, hat, hj, hd⟩,
    hr⟩

theorem Scheduled.setClock (h : Scheduled s) {now : TimePoint} (hnow : s.clock ≤ now) :
    Scheduled { s with clock := now } := by
  obtain ⟨⟨⟨hf, hrn, hrl, har, hsn, hsl, hsr, hsp, hhl, hht, hqn, hqh, hfp⟩, hal, has, hat, hj, hd⟩,
    hr⟩ := h
  have hmono : ∀ c, s.TimedOut c → { s with clock := now : State }.TimedOut c := by
    rintro c ⟨t, hp, ht⟩
    exact ⟨t, hp, Nat.le_trans ht hnow⟩
  exact ⟨⟨⟨hf, hrn, hrl, har, hsn, hsl, hsr, hsp, hhl, fun c q hq hc => hmono c (hht c q hq hc), hqn,
    hqh, hfp⟩, hal, has, fun q hq => hmono _ (hat q hq), hj, hd⟩, hr⟩

theorem Scheduled.returned (h : Scheduled s) (hw : s.waitHook s.active = none) :
    Scheduled s.returned := by
  obtain ⟨hc, hr⟩ := h
  refine ⟨⟨hc.toCore.setPc hc.active_live hc.active_not_sleeping .running, hc.active_live,
    hc.active_not_sleeping, ?_, hc.joined_live, hc.dispatcher_ready⟩, hr⟩
  intro q hq
  rw [show s.waitHook s.active = some q from hq] at hw
  exact absurd hw (Option.some_ne_none q)

theorem Scheduled.waitUnlink (h : Scheduled s) : Scheduled (s.waitUnlink c) :=
  ⟨h.toConsistent.waitUnlink, h.registered⟩

theorem Consistent.not_linked_of_lt (h : Consistent s) {sleepTp : TimePoint}
    (hp : s.pc s.active = .waitUntil sleepTp) (hlt : s.clock < sleepTp) :
    s.waitHook s.active = none := by
  rcases hw : s.waitHook s.active with _ | q
  · rfl
  · obtain ⟨t, ht, hle⟩ := h.active_timedOut q hw
    rw [hp] at ht
    rw [← Pc.waitUntil.inj ht] at hle
    exact absurd hlt (Nat.not_lt.mpr hle)

theorem Scheduled.sleep2ready {now : TimePoint} {l : List CtxId} (h : Scheduled s)
    (hl : s.sleepQueue = l) (hnow : s.clock = now) : Scheduled (s.sleep2ready now l) := by
  induction l generalizing s with
  | nil => exact h
  | cons c rest ih =>
    obtain ⟨hc, hr⟩ := h
    have hmem : c ∈ s.sleepQueue := by
      rw [hl]
      exact List.mem_cons_self
    have hlive := hc.sleep_live c hmem
    have hready := hc.sleep_not_ready c hmem
    have hca : c ≠ s.active := fun he => hc.active_not_sleeping (he ▸ hmem)
    have hn := hc.sleep_nodup
    rw [hl, List.nodup_cons] at hn
    have hsub : ∀ x ∈ rest, x ∈ s.sleepQueue := by
      intro x hx
      rw [hl]
      exact List.mem_cons_of_mem c hx
    simp only [State.sleep2ready]
    rw [State.require_pos ⟨hlive.2, hlive.1.2, hready⟩]
    by_cases htp : s.tp c ≤ now
    · rw [if_pos htp, awakened_eq]
      apply ih
      · refine ⟨⟨⟨hc.fault_none, ?_, ?_, ?_, hn.2, ?_, ?_, ?_, hc.hook_live, ?_, hc.queue_nodup,
          hc.queue_hook, hc.fresh_pc⟩, hc.active_live, ?_, hc.active_timedOut, hc.joined_live, ?_⟩, hr⟩
        · exact List.nodup_append_comm.mp (List.Nodup.cons hready hc.ready_nodup)
        · intro x hx
          rcases List.mem_append.mp hx with hx | hx
          · exact hc.ready_live x hx
          · rw [List.mem_singleton.mp hx]
            exact hlive.1
        · intro hx
          rcases List.mem_append.mp hx with hx | hx
          · exact hc.active_not_ready hx
          · exact hca (List.mem_singleton.mp hx).symm
        · intro x hx
          exact hc.sleep_live x (hsub x hx)
        · intro x hx hxr
          rcases List.mem_append.mp hxr with hxr | hxr
          · exact hc.sleep_not_ready x (hsub x hx) hxr
          · exact hn.1 (List.mem_singleton.mp hxr ▸ hx)
        · intro x hx
          have hxc : x ≠ c := fun he => hn.1 (he ▸ hx)
          simp only [Function.update_of_ne hxc]
          exact hc.sleep_pc x (hsub x hx)
        · intro x q hq hxr
          rcases List.mem_append.mp hxr with hxr | hxr
          · exact hc.hook_timedOut x q hq hxr
          · rw [List.mem_singleton.mp hxr]
            exact ⟨s.tp c, hc.sleep_pc c hmem, hnow ▸ htp⟩
        · intro hx
          exact hc.active_not_sleeping (hsub _ hx)
        · intro hd
          exact List.mem_append_left _ (hc.dispatcher_ready hd)
      · rfl
      · exact hnow
      · exact hready
    · rw [if_neg htp]
      exact ⟨hc, hr⟩

end Rounds

end Dumbo.Fiber.Scheduler
