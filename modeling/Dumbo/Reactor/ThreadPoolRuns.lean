import Dumbo.Reactor.ThreadPoolInvariant

/-!
# Running and stopping a thread pool
-/

namespace Dumbo.Reactor.ThreadPool

open Transition

variable {W T : Type*}

/-- The calls of `try_run` and `release`, and the threads of the workers. -/
def Action.isCall : Action W T → Prop
  | .stopWorkers | .destroy => False
  | _ => True

variable [DecidableEq W] [DecidableEq T] {minSize maxSize : Nat} {s t : State W T} {task : T} {new : W}

/-- `t` is what `try_run` leaves when it has given the task to `w`. -/
structure Receives (s t : State W T) (task : T) (w : W) : Prop where
  idle : w ∉ s.busyWorkers ∧
    (s.worker w = none ∨ s.worker w = some .starting ∨ s.worker w = some .idle)
  receives : t.holder task = some w ∧ (t.worker w = some (.given task) ∨ t.worker w = some (.lost task))
  busy : t.busyWorkers = s.busyWorkers ++ [w]
  free : ∀ v, v ∈ t.freeWorkers ↔ v ∈ s.freeWorkers ∧ v ≠ w
  others : ∀ v, v ≠ w → t.worker v = s.worker v

/-- `t` is what `release` leaves of a message that `w` has run. -/
structure Releases (minSize : Nat) (s t : State W T) (task : T) (w : W) : Prop where
  ran : s.ran task = some w ∧ w ∈ s.busyWorkers
  fault : t.fault = none
  busy : t.busyWorkers = s.busyWorkers.erase w
  back : s.freeWorkers.length < minSize → t.freeWorkers = s.freeWorkers ++ [w] ∧ t.worker = s.worker
  deleted : minSize ≤ s.freeWorkers.length →
    t.freeWorkers = s.freeWorkers ∧ t.worker = Function.update s.worker w none

structure Bookkeeping (minSize maxSize : Nat) (s : State W T) : Prop where
  lists : ∀ w, s.worker w ≠ none ↔ Xor (w ∈ s.freeWorkers) (w ∈ s.busyWorkers)
  nodup : s.freeWorkers.Nodup ∧ s.busyWorkers.Nodup
  sizes : s.freeWorkers.length ≤ minSize ∧ s.busyWorkers.length ≤ maxSize
  result : ∀ task new started,
    (s.tryRun maxSize task new started).1 = true ↔ s.busyWorkers.length < maxSize
  refused : ∀ task new started, (s.tryRun maxSize task new started).1 = false →
    (s.tryRun maxSize task new started).2 = s
  given : ∀ task new started, s.holder task = none → s.worker new = none →
    (s.tryRun maxSize task new started).1 = true →
      ∃ w, Receives s (s.tryRun maxSize task new started).2 task w
  released : ∀ task ∈ s.finished, ∃ w, Releases minSize s (s.release minSize task) task w

theorem Inv.receives (h : Inv minSize maxSize s) {F : List W} {w : W} {x : Worker T}
    (htakes : s.Takes F w) (hrun : s.stopped = false) (hx : x = .given task ∨ x = .lost task) :
    Receives s (s.give F w x task) task w := by
  obtain ⟨hbusy, hnodup, -, -, hmem⟩ := h.takes htakes
  have hw : w ∉ F := fun hF =>
    List.disjoint_of_nodup_append hnodup hF (List.mem_append_right _ (List.mem_singleton_self w))
  refine ⟨⟨hbusy, ?_⟩, ⟨Function.update_self _ _ _, ?_⟩, rfl, fun v => ?_,
    fun v hv => Function.update_of_ne hv _ _⟩
  · rcases htakes with hfree | ⟨-, -, hnone⟩
    · rcases h.rests w (by rw [hfree]; simp) with ⟨hstop, -⟩ | ⟨-, hrests⟩
      · exact absurd (hstop.symm.trans hrun) (by simp)
      · exact .inr hrests
    · exact .inl hnone
  · rw [show (s.give F w x task).worker w = some x from Function.update_self _ _ _]
    exact hx.imp (congrArg some) (congrArg some)
  · show v ∈ F ↔ _
    have hsplit := hmem v
    have hdisjoint : v ∈ F → v ∉ s.busyWorkers := fun hF hb =>
      List.disjoint_of_nodup_append hnodup hF (List.mem_append_left _ hb)
    have hfree : v ∈ s.freeWorkers → v ∉ s.busyWorkers := fun hf hb => h.not_free hb hf
    simp only [List.mem_append, List.mem_singleton] at hsplit
    by_cases hv : v = w
    · simp [hv, hw]
    · simp only [hv, or_false] at hsplit
      tauto

theorem Inv.releases (h : Inv minSize maxSize s) (hf : task ∈ s.finished) :
    ∃ w, Releases minSize s (s.release minSize task) task w := by
  obtain ⟨w, hheld, hidle, hran, hdata, hbusy⟩ := h.finished_worker hf
  refine ⟨w, ⟨hran, hbusy⟩, ?_, ?_, fun hroom => ?_, fun hfull => ?_⟩
  · rw [release_eq hidle hdata hbusy]
    split_ifs <;> exact h.fault
  · rw [release_eq hidle hdata hbusy]
    split_ifs <;> rfl
  · rw [release_eq hidle hdata hbusy, if_pos hroom]
    exact ⟨rfl, rfl⟩
  · rw [release_eq hidle hdata hbusy, if_neg (Nat.not_lt.mpr hfull)]
    exact ⟨rfl, rfl⟩

theorem Inv.bookkeeping (h : Inv minSize maxSize s) (hrun : s.stopped = false) :
    Bookkeeping minSize maxSize s := by
  refine ⟨fun w => ?_, ⟨(List.nodup_append.mp h.nodup).1, (List.nodup_append.mp h.nodup).2.1⟩,
    ⟨h.free_le, h.busy_le⟩, fun task new started => ?_, fun task new started hfalse => ?_,
    fun task new started hnew haddress htrue => ?_, fun task hf => h.releases hf⟩
  · rw [← h.live w, List.mem_append]
    have hdisjoint : w ∈ s.busyWorkers → w ∉ s.freeWorkers := h.not_free
    unfold Xor
    tauto
  · rw [State.tryRun]
    split_ifs with hroom <;> simp [hroom]
  · rw [State.tryRun] at hfalse ⊢
    split_ifs at hfalse ⊢ with hroom
    rfl
  · have hroom : s.busyWorkers.length < maxSize := by
      by_contra hfull
      rw [State.tryRun, if_neg hfull] at htrue
      exact absurd htrue (by simp)
    have hempty : s.stopped = true → s.freeWorkers = [] := fun hstop =>
      absurd (hstop.symm.trans hrun) (by simp)
    obtain ⟨F, w, x, htakes, heq, hx⟩ := h.tryRun_eq hroom haddress hempty task started
    rw [heq]
    exact ⟨w, h.receives htakes hrun hx⟩

/-- Without a call of `stop_workers` the pool goes on. -/
theorem Inv.step_running {a : Action W T} (h : Inv minSize maxSize s) (hrun : s.stopped = false)
    (ha : a.isCall) (hs : ThreadPool.step minSize maxSize s a = some t) :
    Inv minSize maxSize t ∧ t.stopped = false := by
  have hstop : ¬ s.stopped = true := Bool.eq_false_iff.mp hrun
  obtain ⟨-, he⟩ := Option.ite_none_right_eq_some.mp hs
  cases a with
  | tryRun task new started =>
    have hok : StepOk minSize maxSize s (.tryRun task new started) := fun hs => absurd hs hstop
    refine ⟨h.step hok hs, ?_⟩
    obtain ⟨⟨-, haddress⟩, he⟩ := Option.ite_none_right_eq_some.mp he |>.imp_right Option.some.inj
    rw [← he]
    by_cases hroom : s.busyWorkers.length < maxSize
    · obtain ⟨F, w, x, -, heq, -⟩ :=
        h.tryRun_eq hroom haddress (fun hs => absurd hs hstop) task started
      rw [heq]
      exact hrun
    · rw [State.tryRun, if_neg hroom]
      exact hrun
  | release task =>
    have hok : StepOk minSize maxSize s (.release task) := fun hs => absurd hs hstop
    refine ⟨h.step hok hs, ?_⟩
    obtain ⟨hf, he⟩ := Option.ite_none_right_eq_some.mp he |>.imp_right Option.some.inj
    obtain ⟨w, hheld, hidle, -, hdata, hbusy⟩ := h.finished_worker hf
    rw [← he, release_eq hidle hdata hbusy]
    split_ifs <;> exact hrun
  | work w =>
    have hok : StepOk minSize maxSize s (.work w) := trivial
    refine ⟨h.step hok hs, ?_⟩
    rw [enabledStep, State.work] at he
    split at he
    case h_5 => exact absurd he (by simp)
    all_goals
      rw [← Option.some.inj he]
      exact hrun
  | stopWorkers => exact ha.elim
  | destroy => exact ha.elim

/-- Workers come and go, and the messages come back in any order. -/
theorem thread_pool_bookkeeping {workers : List W} (hnodup : workers.Nodup)
    (h : (machine T workers maxSize).ReachableWith (fun _ a => a.isCall) s) :
    Bookkeeping workers.length maxSize s := by
  have hinv : Inv workers.length maxSize s ∧ s.stopped = false :=
    h.invariant (P := fun s => Inv workers.length maxSize s ∧ s.stopped = false)
      ⟨Inv.create hnodup, rfl⟩ fun _ _ _ hinv ha hs => hinv.1.step_running hinv.2 ha hs
  exact hinv.1.bookkeeping hinv.2

/-- A second message makes a second worker, which is deleted when its message comes back last. -/
theorem thread_pool_bookkeeping_two : ∃ s : State Nat Nat,
    s.freeWorkers = [0] ∧ s.busyWorkers = [1] ∧ s.finished = [7] ∧ Bookkeeping 1 2 s := by
  have hrun : ∃ s : State Nat Nat,
      ((machine Nat [0] 2).guarded fun _ a => decide (a ≠ .stopWorkers ∧ a ≠ .destroy)).exec
        (create [0]) [.work 0, .tryRun 8 1 true, .tryRun 7 1 true, .work 1, .work 0, .work 0, .work 1,
          .work 1, .work 0, .release 8] = some s ∧
        s.freeWorkers = [0] ∧ s.busyWorkers = [1] ∧ s.finished = [7] :=
    ⟨_, rfl, rfl, rfl, rfl⟩
  obtain ⟨s, hexec, hfree, hbusy, hfinished⟩ := hrun
  refine ⟨s, hfree, hbusy, hfinished, thread_pool_bookkeeping (List.nodup_singleton 0) ?_⟩
  refine (Machine.reachableWith_of_exec hexec).mono fun _ a ha => ?_
  cases a with
  | stopWorkers => simp at ha
  | destroy => simp at ha
  | _ => trivial

end Dumbo.Reactor.ThreadPool
