import Dumbo.Fiber.SchedulerSteps

/-!
# Every ready context is resumed

The ready contexts are resumed in the order in which they have become ready. A step that switches to the next
context brings each of the others one place forward, and no step brings one backward.
-/

namespace Dumbo.Fiber.Scheduler

open Transition

/-! ### Places in a queue -/

section Places

variable {c d : CtxId} {l l' : List CtxId}

/-- The context is still in the queue, and at least `n` places further to the front. -/
def Closer (n : Nat) (c : CtxId) (l l' : List CtxId) : Prop :=
  c ∈ l' ∧ l'.idxOf c + n ≤ l.idxOf c

theorem Closer.refl (hc : c ∈ l) : Closer 0 c l l := ⟨hc, Nat.le_refl _⟩

theorem Closer.trans {m n : Nat} {l'' : List CtxId} (h : Closer m c l l') (h' : Closer n c l' l'') :
    Closer (m + n) c l l'' := by
  obtain ⟨_, hle⟩ := h
  obtain ⟨hc, hle'⟩ := h'
  refine ⟨hc, ?_⟩
  omega

theorem Closer.append (hc : c ∈ l) (l' : List CtxId) : Closer 0 c l (l ++ l') := by
  refine ⟨List.mem_append_left _ hc, ?_⟩
  rw [List.idxOf_append_of_mem hc, Nat.add_zero]

theorem Closer.erase (hc : c ∈ l) (hd : d ≠ c) : Closer 0 c l (l.erase d) := by
  refine ⟨(List.mem_erase_of_ne (Ne.symm hd)).mpr hc, ?_⟩
  induction l with
  | nil => exact absurd hc List.not_mem_nil
  | cons x rest ih =>
    by_cases hx : x = d
    · rw [hx, List.erase_cons_head, List.idxOf_cons_ne _ hd]
      omega
    · rw [List.erase_cons_tail (by simpa using hx)]
      by_cases hxc : x = c
      · rw [hxc, List.idxOf_cons_self, List.idxOf_cons_self]
      · rw [List.idxOf_cons_ne _ hxc, List.idxOf_cons_ne _ hxc]
        have hrest := ih ((List.mem_cons.mp hc).resolve_left (Ne.symm hxc))
        omega

theorem Closer.tail {x : CtxId} (hc : c ∈ x :: l) (hx : x ≠ c) : Closer 1 c (x :: l) l := by
  refine ⟨(List.mem_cons.mp hc).resolve_left (Ne.symm hx), ?_⟩
  rw [List.idxOf_cons_ne _ hx]

end Places

/-! ### The operations on the ready queue -/

variable {s t u : State} {c d : CtxId} {a : Action}

theorem setReady_closer (hc : c ∈ s.algo.ready) (hd : d ≠ c) :
    Closer 0 c s.algo.ready (s.setReady d).algo.ready := by
  have hready : (s.setReady d).algo.ready = s.algo.ready.erase d ++ [d] := by
    simp only [State.setReady, State.awakened, Algo.awakened, require_algo]
  rw [hready]
  have herase := Closer.erase hc hd
  exact herase.trans (.append herase.1 [d])

theorem resume_closer {x : CtxId} {r : Option CtxId} (hc : c ∈ s.algo.ready) (hr : r ≠ some c) :
    Closer 0 c s.algo.ready (s.resume x r).algo.ready := by
  cases r with
  | none => exact .refl hc
  | some d =>
    apply setReady_closer (s := { s with active := x }) hc
    rintro rfl
    exact hr rfl

theorem resumeNext_closer {r : Option CtxId} (hlive : ∀ x ∈ u.algo.ready, u.terminated x = false)
    (hc : c ∈ u.algo.ready) (hr : r ≠ some c) (ha : (u.resumeNext r).active ≠ c) :
    Closer 1 c u.algo.ready (u.resumeNext r).algo.ready := by
  obtain ⟨x, rest, hready⟩ := List.exists_cons_of_ne_nil (List.ne_nil_of_mem hc)
  have hx : u.terminated x = false := by
    apply hlive
    rw [hready]
    exact List.mem_cons_self
  rw [resumeNext_eq hready hx, resume_active] at ha
  rw [resumeNext_eq hready hx, hready]
  have htail := Closer.tail (hready ▸ hc) ha
  exact htail.trans (resume_closer (s := { u with algo := ⟨u.algo.kind, rest⟩ }) htail.1 hr)

theorem notifyJoiners_closer {l : List CtxId} (hc : c ∈ s.algo.ready) (hl : c ∉ l) :
    Closer 0 c s.algo.ready (s.notifyJoiners l).algo.ready := by
  induction l generalizing s with
  | nil => exact .refl hc
  | cons d rest ih =>
    rw [List.mem_cons, not_or] at hl
    have hunlink : ((s.require (d ≠ s.active)).waitUnlink d).algo = s.algo := require_algo s _
    have hwake : Closer 0 c s.algo.ready (s.wake d).algo.ready := by
      rw [State.wake, ← hunlink]
      apply setReady_closer
      · rw [hunlink]
        exact hc
      · exact Ne.symm hl.1
    exact hwake.trans (ih hwake.1 hl.2)

theorem sleep2ready_closer (now : TimePoint) (l : List CtxId) (hc : c ∈ s.algo.ready) :
    Closer 0 c s.algo.ready (s.sleep2ready now l).algo.ready := by
  induction l generalizing s with
  | nil => exact .refl hc
  | cons d rest ih =>
    have hawake : ∀ v : State, v.algo = s.algo →
        Closer 0 c s.algo.ready ((v.awakened d).sleep2ready now rest).algo.ready := by
      intro v hv
      have hready : (v.awakened d).algo.ready = s.algo.ready ++ [d] := by
        simp only [State.awakened, Algo.awakened, require_algo, hv]
      have happend : Closer 0 c s.algo.ready (v.awakened d).algo.ready := by
        rw [hready]
        exact .append hc [d]
      exact happend.trans (ih happend.1)
    simp only [State.sleep2ready]
    split
    · apply hawake
      exact require_algo s _
    · rw [require_algo]
      exact .refl hc

theorem next_closer (hlive : ∀ x ∈ s.algo.ready, s.terminated x = false) (hc : c ∈ s.algo.ready)
    {r : Option CtxId} (halgo : u.algo = s.algo) (hterminated : u.terminated = s.terminated)
    (hr : r ≠ some c) (ha : (u.resumeNext r).active ≠ c) :
    Closer 1 c s.algo.ready (u.resumeNext r).algo.ready := by
  rw [← halgo]
  apply resumeNext_closer
  · intro x hx
    rw [hterminated]
    exact hlive x (halgo ▸ hx)
  · rw [halgo]
    exact hc
  · exact hr
  · exact ha

theorem Scheduled.setTerminated_closer (h : Scheduled s) (hu : s.InUser)
    (hc : c ∈ s.algo.ready) (hhook : s.waitHook c = none) (ha : s.setTerminated.active ≠ c) :
    Closer 1 c s.algo.ready s.setTerminated.algo.ready := by
  have hnot : c ∉ s.waitQueue s.active := by
    intro hq
    have hjoin := (h.queue_hook c s.active).mp hq
    rw [hhook] at hjoin
    cases hjoin
  have hjoiners := notifyJoiners_closer
    (s := { s with terminated := Function.update s.terminated s.active true }) hc hnot
  obtain ⟨hleaving, _⟩ := (h.toConsistent.leaving hu).notifyJoiners rfl
  refine hjoiners.trans (n := 1) ?_
  rw [State.setTerminated, State.schedulerSetTerminated] at ha ⊢
  dsimp only at ha ⊢
  generalize State.notifyJoiners _ _ = v at hjoiners hleaving ha ⊢
  refine next_closer (fun x hx => (hleaving.ready_live x hx).2) hjoiners.1 ?_ ?_ (by simp) ha
  · exact require_algo v _
  · simp only [require_registry]

/-! ### Switches -/

/-- The steps that resume what `get_next_` returns. -/
def switches (s : State) : Action → Bool
  | .yield | .suspend _ | .waitUntil _ _ | .setTerminated | .dispatch _ => true
  | .join c => !s.terminated c
  | _ => false

/-- The number of switches in a run. -/
def countSwitches : State → List Action → Nat
  | _, [] => 0
  | s, a :: as => (switches s a).toNat + ((step s a).map fun t => countSwitches t as).getD 0

/-- A context that nothing but the scheduler has a hold on keeps that, and moves forward. -/
theorem step_closer (h : Scheduled s) (hs : step s a = some t) (hc : c ∈ s.algo.ready)
    (hhook : s.waitHook c = none) (ht : t.active ≠ c) :
    Closer (switches s a).toNat c s.algo.ready t.algo.ready := by
  obtain ⟨he, rfl⟩ := step_perform hs
  have hca : some s.active ≠ some c := by
    intro heq
    exact h.active_not_ready (Option.some.inj heq ▸ hc)
  have hlive : ∀ x ∈ s.algo.ready, s.terminated x = false := fun x hx => (h.ready_live x hx).2
  cases a with
  | create policy =>
    have hnew : s.ncreated ≠ c := by
      rintro rfl
      exact Nat.lt_irrefl _ (h.ready_live _ hc).1
    cases policy with
    | post =>
      have hready : ∀ v : State, v.algo = s.algo →
          Closer 0 c s.algo.ready (v.setReady s.ncreated).algo.ready := by
        intro v hv
        rw [← hv]
        exact setReady_closer (hv ▸ hc) hnew
      exact hready _ (require_algo s _)
    | dispatch =>
      have hready : ∀ (v : State) (r : Option CtxId), v.algo = s.algo → r ≠ some c →
          Closer 0 c s.algo.ready (v.resume s.ncreated r).algo.ready := by
        intro v r hv hr
        rw [← hv]
        exact resume_closer (hv ▸ hc) hr
      refine hready _ _ (require_algo s _) ?_
      rw [require_active]
      exact hca
  | detach d =>
    rw [perform, reset_algo]
    exact .refl hc
  | yield =>
    refine next_closer hlive hc (require_algo s _) (by rw [require_registry]) ?_ ht
    rw [require_active]
    exact hca
  | suspend q =>
    exact next_closer hlive hc (waitLink_algo s _ _) (by rw [waitLink_registry]) (by simp) ht
  | waitUntil q sleepTp =>
    cases q with
    | none =>
      refine next_closer hlive hc ?_ ?_ (by simp) ht
      · exact require_algo s _
      · simp only [State.sleepLink, require_registry]
    | some q =>
      refine next_closer hlive hc ?_ ?_ (by simp) ht
      · simp only [State.sleepLink, require_algo, waitLink_algo]
      · simp only [State.sleepLink, require_registry, waitLink_registry]
  | wake d =>
    obtain ⟨_, hlinked⟩ := of_decide_eq_true he
    have hne : d ≠ c := by
      rintro rfl
      exact hlinked hhook
    have hunlink : ((s.require (d ≠ s.active)).waitUnlink d).algo = s.algo := require_algo s _
    rw [perform, State.wake, ← hunlink]
    apply setReady_closer
    · rw [hunlink]
      exact hc
    · exact hne
  | join d =>
    by_cases hd : s.terminated d = true
    · simp only [switches, hd, perform, State.join, if_true, reset_algo]
      exact .refl hc
    · simp only [perform, State.join, hd, Bool.false_eq_true, if_false] at ht ⊢
      simp only [switches, hd]
      refine next_closer hlive hc ?_ ?_ (by simp) ht
      · exact waitLink_algo s _ _
      · simp only [waitLink_registry]
  | setTerminated =>
    obtain ⟨hu, _⟩ := of_decide_eq_true he
    exact h.setTerminated_closer hu hc hhook ht
  | setAlgo kind =>
    rw [perform, setAlgo_eq h.ready_nodup]
    exact .refl hc
  | resumed now =>
    have halgo : (s.resumed now).algo = s.algo := by
      simp only [State.resumed]
      split
      · rfl
      · split
        · rfl
        · rfl
      · simp only [State.returned, reset_algo]
        rfl
    rw [perform, halgo]
    exact .refl hc
  | dispatch now =>
    obtain ⟨hd, _⟩ := of_decide_eq_true he
    have hdispatcher : some dispatcherCtx ≠ some c := hd ▸ hca
    have hsleep := sleep2ready_closer (s := { s with clock := now : State }.releaseTerminated s.terminatedQueue)
      (c := c) now ({ s with clock := now : State }.releaseTerminated s.terminatedQueue).sleepQueue
      (by rw [releaseTerminated_algo]; exact hc)
    rw [releaseTerminated_algo] at hsleep
    refine hsleep.trans (n := 1) ?_
    simp only [perform, State.dispatch] at ht ⊢
    generalize State.sleep2ready _ now _ = u at hsleep ht ⊢
    obtain ⟨x, rest, hready⟩ := List.exists_cons_of_ne_nil (List.ne_nil_of_mem hsleep.1)
    simp only [Algo.pickNext, hready, resume_active] at ht ⊢
    have htail := Closer.tail (hready ▸ hsleep.1) ht
    exact htail.trans (resume_closer (s := { u with algo := ⟨u.algo.kind, rest⟩ }) htail.1 hdispatcher)

/-- No step but its own resumption touches such a context. -/
theorem step_hook_none (h : Scheduled s) (hs : step s a = some t) (hc : c ∈ s.algo.ready)
    (hhook : s.waitHook c = none) : t.waitHook c = none := by
  have hca : c ≠ s.active := by
    rintro rfl
    exact h.active_not_ready hc
  by_cases ht : a = .setTerminated
  · subst ht
    obtain ⟨_, rfl⟩ := step_perform hs
    have hnot : c ∉ s.waitQueue s.active := by
      intro hq
      have hjoin := (h.queue_hook c s.active).mp hq
      rw [hhook] at hjoin
      cases hjoin
    rw [perform, State.setTerminated, State.schedulerSetTerminated, resumeNext_waits]
    dsimp only
    rw [require_waits, notifyJoiners_hook_ne _ hnot]
    exact hhook
  · have hw : a ≠ .wake c := by
      rintro rfl
      obtain ⟨_, hlinked⟩ := of_decide_eq_true (step_perform hs).1
      exact hlinked hhook
    rw [step_hook hs hca ht hw]
    exact hhook

/-- A run that has more switches than there are contexts before it resumes the context. -/
theorem Scheduled.runs (h : Scheduled s) {as : List Action} (hc : c ∈ s.algo.ready)
    (hhook : s.waitHook c = none) (hrun : machine.exec s as = some t)
    (hcount : s.algo.ready.idxOf c < countSwitches s as) :
    ∃ as₁ as₂ u, as = as₁ ++ as₂ ∧ machine.exec s as₁ = some u ∧ u.active = c := by
  induction as generalizing s with
  | nil => exact absurd hcount (Nat.not_lt_zero _)
  | cons a as ih =>
    obtain ⟨u, hu, hrun⟩ := Machine.exec_cons.mp hrun
    by_cases ha : u.active = c
    · exact ⟨[a], as, u, rfl, Machine.exec_cons.mpr ⟨u, hu, rfl⟩, ha⟩
    · have hstep : Scheduler.step s a = some u := hu
      obtain ⟨hmem, hle⟩ := step_closer h hstep hc hhook ha
      have hcount' : u.algo.ready.idxOf c < countSwitches u as := by
        simp only [countSwitches, hstep, Option.map_some, Option.getD_some] at hcount
        omega
      obtain ⟨as₁, as₂, v, rfl, hv, hactive⟩ :=
        ih (h.step hu) hmem (step_hook_none h hstep hc hhook) hrun hcount'
      exact ⟨a :: as₁, as₂, v, rfl, Machine.exec_cons.mpr ⟨u, hu, hv⟩, hactive⟩

/-- A context that is ready and not linked in a wait queue is resumed in the course of as many switches as there are
contexts before it and one more, whatever the others do meanwhile. -/
theorem ready_context_runs (h : machine.Reachable s) {as : List Action} (hc : c ∈ s.algo.ready)
    (hhook : s.waitHook c = none) (hrun : machine.exec s as = some t)
    (hcount : s.algo.ready.idxOf c < countSwitches s as) :
    ∃ as₁ as₂ u, as = as₁ ++ as₂ ∧ machine.exec s as₁ = some u ∧ u.active = c :=
  (reachable_scheduled h).runs hc hhook hrun hcount

/-- The second of two fibers, behind the dispatcher and the first. -/
theorem ready_context_runs_second : ∃ s, s.algo.ready = [1, 2, 3] ∧
    ∃ as₁ as₂ u, [Action.yield, .dispatch 0, .yield] = as₁ ++ as₂ ∧ machine.exec s as₁ = some u ∧
      u.active = 3 := by
  obtain ⟨s, hs, hready, hhook⟩ : ∃ s, machine.exec machine.start [.create .post, .create .post] = some s ∧
      s.algo.ready = [1, 2, 3] ∧ s.waitHook 3 = none := ⟨_, rfl, rfl, rfl⟩
  have hrun : ∃ t, machine.exec s [.yield, .dispatch 0, .yield] = some t ∧
      countSwitches s [.yield, .dispatch 0, .yield] = 3 := by
    cases hs
    exact ⟨_, rfl, rfl⟩
  obtain ⟨t, ht, hcount⟩ := hrun
  refine ⟨s, hready, ready_context_runs (Machine.reachable_of_exec hs) ?_ hhook ht ?_⟩
  · rw [hready]
    decide
  · rw [hready, hcount]
    decide

end Dumbo.Fiber.Scheduler
