import Dumbo.Fiber.SchedulerWellFormed

/-!
# What a step of the scheduler keeps

A step of one context leaves the other contexts where they are: a ready context stays ready until it
is resumed, a live one stays live, and what it was suspended in is changed by itself only.
-/

namespace Dumbo.Fiber.Scheduler

section Registry

variable (s : State) (c : CtxId)

theorem release_registry : (s.release c).toRegistry = { s.toRegistry with
    useCount := Function.update s.useCount c (s.useCount c - 1)
    contexts := if s.useCount c - 1 = 0 then s.contexts - 1 else s.contexts } := by
  simp only [State.release, Function.update_self]
  split
  · simp only [require_registry]
  · rfl

/-- The registry up to references and the queues of workers. -/
structure Registry.Agree (r r' : Registry) : Prop where
  terminated : r'.terminated = r.terminated
  joinable : r'.joinable = r.joinable
  ncreated : r'.ncreated = r.ncreated

theorem Registry.Agree.live {r r' : Registry} (h : r.Agree r') {c : CtxId} :
    r'.Live c ↔ r.Live c := by
  rw [Live, Live, h.terminated, h.ncreated]

theorem Registry.Agree.trans {r r' r'' : Registry} (h : r.Agree r') (h' : r'.Agree r'') :
    r.Agree r'' :=
  ⟨h'.terminated.trans h.terminated, h'.joinable.trans h.joinable, h'.ncreated.trans h.ncreated⟩

theorem releaseTerminated_agree (l : List CtxId) :
    s.toRegistry.Agree (s.releaseTerminated l).toRegistry := by
  induction l generalizing s with
  | nil => exact ⟨rfl, rfl, rfl⟩
  | cons c rest ih =>
    rw [State.releaseTerminated]
    refine Registry.Agree.trans ?_ (ih _)
    rw [release_registry]
    constructor
    · simp only [require_registry]
    · simp only [require_registry]
    · simp only [require_registry]

theorem dispatch_agree (now : TimePoint) :
    s.toRegistry.Agree (s.dispatch now).toRegistry := by
  have h := releaseTerminated_agree { s with clock := now } s.terminatedQueue
  simp only [State.dispatch]
  split
  · rw [sleep2ready_registry]
    exact h
  · rw [resume_registry]
    simp only [sleep2ready_registry]
    exact h

theorem reset_terminated : (s.reset c).terminated = s.terminated := by
  unfold State.reset
  split
  · rw [release_registry]
  · rfl

theorem reset_ncreated : (s.reset c).ncreated = s.ncreated := by
  unfold State.reset
  split
  · rw [release_registry]
  · rfl

theorem moveReady_registry (l : List CtxId) : (s.moveReady l).toRegistry = s.toRegistry := by
  induction l generalizing s with
  | nil => rfl
  | cons c rest ih =>
    rw [State.moveReady, ih]
    exact require_registry s _

end Registry

section Waits

variable (s : State) (c : CtxId)

theorem awakened_waits : (s.awakened c).toWaits = s.toWaits :=
  require_waits s _

theorem setReady_waits : (s.setReady c).toWaits = s.toWaits := by
  simp only [State.setReady, awakened_waits, require_waits]

theorem resume_waits (readyCtx : Option CtxId) :
    (s.resume c readyCtx).toWaits = s.toWaits := by
  cases readyCtx with
  | none => rfl
  | some r => exact setReady_waits _ r

theorem resumeNext_waits (readyCtx : Option CtxId) :
    (s.resumeNext readyCtx).toWaits = s.toWaits := by
  unfold State.resumeNext
  split
  · rfl
  · split
    · rfl
    · exact resume_waits _ _ readyCtx

theorem waitLink_pc (q : QueueId) : (s.waitLink c q).pc = s.pc := by
  cases q with
  | primitive q => simp only [State.waitLink, require_waits]
  | join d => simp only [State.waitLink, require_waits]

theorem wake_pc : (s.wake c).pc = s.pc := by
  simp only [State.wake, setReady_waits, State.waitUnlink, require_waits]

theorem waitLink_hook_ne {x d : CtxId} (q : QueueId) (hx : x ≠ d) :
    (s.waitLink d q).waitHook x = s.waitHook x := by
  cases q with
  | primitive q => simp only [State.waitLink, require_waits, Function.update_of_ne hx]
  | join e => simp only [State.waitLink, require_waits, Function.update_of_ne hx]

theorem wake_hook_ne {x d : CtxId} (hx : x ≠ d) : (s.wake d).waitHook x = s.waitHook x := by
  simp only [State.wake, setReady_waits, State.waitUnlink, require_waits, Function.update_of_ne hx]

theorem notifyJoiners_hook_ne {x : CtxId} {l : List CtxId} (hx : x ∉ l) :
    (s.notifyJoiners l).waitHook x = s.waitHook x := by
  induction l generalizing s with
  | nil => rfl
  | cons d rest ih =>
    rw [List.mem_cons, not_or] at hx
    rw [State.notifyJoiners, ih _ hx.2, wake_hook_ne s hx.1]

theorem notifyJoiners_pc (l : List CtxId) : (s.notifyJoiners l).pc = s.pc := by
  induction l generalizing s with
  | nil => rfl
  | cons c rest ih => rw [State.notifyJoiners, ih, wake_pc]

theorem sleep2ready_waits (now : TimePoint) (l : List CtxId) :
    (s.sleep2ready now l).toWaits = s.toWaits := by
  induction l generalizing s with
  | nil => rfl
  | cons c rest ih =>
    simp only [State.sleep2ready]
    split
    · rw [ih]
      simp only [awakened_waits, require_waits]
    · exact require_waits s _

theorem moveReady_waits (l : List CtxId) : (s.moveReady l).toWaits = s.toWaits := by
  induction l generalizing s with
  | nil => rfl
  | cons c rest ih => rw [State.moveReady, ih, awakened_waits]

theorem dispatch_pc (now : TimePoint) : (s.dispatch now).pc = s.pc := by
  have h := releaseTerminated_waits { s with clock := now } s.terminatedQueue
  simp only [State.dispatch]
  split
  · rw [sleep2ready_waits, h]
  · rw [resume_waits]
    simp only [sleep2ready_waits, h]

variable {c}

theorem waitUntil_pc (q : Option Nat) (sleepTp : TimePoint) (hc : c ≠ s.active) :
    (s.waitUntil q sleepTp).pc c = s.pc c := by
  cases q with
  | none =>
    simp only [State.waitUntil, resumeNext_waits, State.sleepLink, require_waits, require_active,
      Function.update_of_ne hc]
  | some q =>
    have ha : (s.waitLink s.active (.primitive q)).active = s.active := require_active s _
    simp only [State.waitUntil, resumeNext_waits, State.sleepLink, require_waits, require_active,
      ha, Function.update_of_ne hc, waitLink_pc]

theorem join_pc (d : CtxId) (hc : c ≠ s.active) : (s.join d).pc c = s.pc c := by
  have ha : (s.waitLink s.active (.join d)).active = s.active := require_active s _
  by_cases ht : s.terminated d = true
  · simp only [State.join, ht, if_true, reset_waits]
  · simp only [State.join, ht, Bool.false_eq_true, if_false, resumeNext_waits, ha,
      Function.update_of_ne hc, waitLink_pc]

theorem resumed_pc (now : TimePoint) (hc : c ≠ s.active) : (s.resumed now).pc c = s.pc c := by
  rcases hp : s.pc s.active with _ | sleepTp | d <;> simp only [State.resumed, hp]
  · by_cases hlt : now < sleepTp
    · simp only [hlt, if_true, State.returned, Function.update_of_ne hc]
    · simp only [hlt, if_false, State.returned, State.waitUnlink, Function.update_of_ne hc]
  · simp only [State.returned, reset_active, reset_waits, State.waitUnlink,
      Function.update_of_ne hc]

end Waits

section Steps

variable {s t : State} {a : Action} {c : CtxId}

theorem step_perform (hs : step s a = some t) : enabled s a = true ∧ perform s a = t := by
  simpa only [step, Option.ite_none_right_eq_some, Option.some.injEq] using hs

theorem step_pc_eq (hs : step s a = some t) (hw : ∀ q sleepTp, a ≠ .waitUntil q sleepTp)
    (hj : ∀ d, a ≠ .join d) (hr : ∀ now, a ≠ .resumed now) : t.pc = s.pc := by
  obtain ⟨_, rfl⟩ := step_perform hs
  cases a with
  | create policy =>
    cases policy with
    | post => simp only [perform, State.create, setReady_waits, require_waits]
    | dispatch => simp only [perform, State.create, resume_waits, require_waits]
  | detach d => exact congrArg Waits.pc (reset_waits s d)
  | yield =>
    simp only [perform, State.yield, resumeNext_waits, require_waits]
  | suspend q =>
    simp only [perform, State.suspend, resumeNext_waits, waitLink_pc]
  | waitUntil q sleepTp => exact absurd rfl (hw q sleepTp)
  | wake d => exact wake_pc s d
  | join d => exact absurd rfl (hj d)
  | setTerminated =>
    simp only [perform, State.setTerminated, State.schedulerSetTerminated, resumeNext_waits,
      require_waits, notifyJoiners_pc]
  | setAlgo kind => exact congrArg Waits.pc (moveReady_waits _ _)
  | resumed now => exact absurd rfl (hr now)
  | dispatch now => exact dispatch_pc s now

/-- Only the active context changes what it stands behind. -/
theorem step_pc (hs : step s a = some t) (hc : c ≠ s.active) : t.pc c = s.pc c := by
  have hperform := (step_perform hs).2
  cases a with
  | waitUntil q sleepTp =>
    rw [← hperform]
    exact waitUntil_pc s q sleepTp hc
  | join d =>
    rw [← hperform]
    exact join_pc s d hc
  | resumed now =>
    rw [← hperform]
    exact resumed_pc s now hc
  | _ => exact congrFun (step_pc_eq hs (by simp) (by simp) (by simp)) c

/-- A context other than the active one is unlinked by who wakes it and by nothing else. -/
theorem step_hook (hs : step s a = some t) (hc : c ≠ s.active) (ht : a ≠ .setTerminated)
    (hw : a ≠ .wake c) : t.waitHook c = s.waitHook c := by
  obtain ⟨_, rfl⟩ := step_perform hs
  cases a with
  | create policy =>
    cases policy with
    | post => simp only [perform, State.create, setReady_waits, require_waits]
    | dispatch => simp only [perform, State.create, resume_waits, require_waits]
  | detach d => simp only [perform, reset_waits]
  | yield => simp only [perform, State.yield, resumeNext_waits, require_waits]
  | suspend q =>
    simp only [perform, State.suspend, resumeNext_waits]
    exact waitLink_hook_ne s _ hc
  | waitUntil q sleepTp =>
    cases q with
    | none =>
      simp only [perform, State.waitUntil, resumeNext_waits, State.sleepLink, require_waits]
    | some q =>
      simp only [perform, State.waitUntil, resumeNext_waits, State.sleepLink, require_waits]
      exact waitLink_hook_ne s _ hc
  | wake d =>
    have hd : c ≠ d := fun he => hw (he ▸ rfl)
    exact wake_hook_ne s hd
  | join d =>
    by_cases ht : s.terminated d = true
    · simp only [perform, State.join, ht, if_true, reset_waits]
    · simp only [perform, State.join, ht, Bool.false_eq_true, if_false, resumeNext_waits]
      exact waitLink_hook_ne s _ hc
  | setTerminated => exact absurd rfl ht
  | setAlgo kind => simp only [perform, State.setAlgo, moveReady_waits]
  | resumed now =>
    rcases hp : s.pc s.active with _ | sleepTp | d <;> simp only [perform, State.resumed, hp]
    · by_cases hlt : now < sleepTp
      · simp only [hlt, if_true, State.returned]
      · simp only [hlt, if_false, State.returned, State.waitUnlink, Function.update_of_ne hc]
    · simp only [State.returned, reset_waits, State.waitUnlink, Function.update_of_ne hc]
  | dispatch now =>
    have h := releaseTerminated_waits { s with clock := now } s.terminatedQueue
    simp only [perform, State.dispatch]
    split
    · rw [sleep2ready_waits, h]
    · rw [resume_waits]
      simp only [sleep2ready_waits, h]

/-- Only `set_terminated` marks a context. -/
theorem step_terminated (hs : step s a = some t) (ha : a ≠ .setTerminated) :
    t.terminated = s.terminated ∧ s.ncreated ≤ t.ncreated := by
  obtain ⟨_, rfl⟩ := step_perform hs
  cases a with
  | create policy =>
    cases policy with
    | post =>
      simp only [perform, State.create, setReady_registry, require_registry]
      exact ⟨trivial, Nat.le_succ _⟩
    | dispatch =>
      simp only [perform, State.create, resume_registry, require_registry]
      exact ⟨trivial, Nat.le_succ _⟩
  | detach d => exact ⟨reset_terminated s d, Nat.le_of_eq (reset_ncreated s d).symm⟩
  | yield =>
    simp only [perform, State.yield, resumeNext_registry, require_registry]
    exact ⟨trivial, Nat.le_refl _⟩
  | suspend q =>
    simp only [perform, State.suspend, resumeNext_registry, waitLink_registry]
    exact ⟨trivial, Nat.le_refl _⟩
  | waitUntil q sleepTp =>
    cases q with
    | none =>
      simp only [perform, State.waitUntil, resumeNext_registry, State.sleepLink, require_registry]
      exact ⟨trivial, Nat.le_refl _⟩
    | some q =>
      simp only [perform, State.waitUntil, resumeNext_registry, State.sleepLink, require_registry,
        waitLink_registry]
      exact ⟨trivial, Nat.le_refl _⟩
  | wake d =>
    simp only [perform, wake_registry]
    exact ⟨trivial, Nat.le_refl _⟩
  | join d =>
    by_cases ht : s.terminated d = true
    · simp only [perform, State.join, ht, if_true, reset_terminated, reset_ncreated]
      exact ⟨trivial, Nat.le_refl _⟩
    · simp only [perform, State.join, ht, Bool.false_eq_true, if_false, resumeNext_registry,
        waitLink_registry]
      exact ⟨trivial, Nat.le_refl _⟩
  | setTerminated => exact absurd rfl ha
  | setAlgo kind =>
    simp only [perform, State.setAlgo, moveReady_registry]
    exact ⟨trivial, Nat.le_refl _⟩
  | resumed now =>
    rcases hp : s.pc s.active with _ | sleepTp | d <;> simp only [perform, State.resumed, hp]
    · exact ⟨trivial, Nat.le_refl _⟩
    · by_cases hlt : now < sleepTp
      · simp only [hlt, if_true, State.returned]
        exact ⟨trivial, Nat.le_refl _⟩
      · simp only [hlt, if_false, State.returned, State.waitUnlink]
        exact ⟨trivial, Nat.le_refl _⟩
    · simp only [State.returned, reset_terminated, reset_ncreated, State.waitUnlink]
      exact ⟨trivial, Nat.le_refl _⟩
  | dispatch now =>
    have h := dispatch_agree s now
    exact ⟨h.terminated, Nat.le_of_eq h.ncreated.symm⟩

theorem setTerminated_terminated (s : State) :
    s.setTerminated.terminated = Function.update s.terminated s.active true := by
  simp only [State.setTerminated, State.schedulerSetTerminated, resumeNext_registry,
    require_registry, notifyJoiners_registry]

theorem step_marked (hs : step s a = some t) (hc : s.terminated c = true) : t.terminated c = true := by
  by_cases ha : a = .setTerminated
  · subst ha
    rw [← (step_perform hs).2, perform, setTerminated_terminated]
    by_cases he : c = s.active
    · rw [he, Function.update_self]
    · rw [Function.update_of_ne he]
      exact hc
  · rw [(step_terminated hs ha).1]
    exact hc

theorem step_live (hs : step s a = some t) (ha : a ≠ .setTerminated) (hl : s.Live c) :
    t.Live c := by
  obtain ⟨hterminated, hcreated⟩ := step_terminated hs ha
  exact ⟨Nat.lt_of_lt_of_le hl.1 hcreated, hterminated ▸ hl.2⟩

end Steps

section Ready

variable (s : State) {c : CtxId}

theorem require_algo (p : Prop) [Decidable p] : (s.require p).algo = s.algo := by
  unfold State.require
  split <;> rfl

theorem reset_algo (d : CtxId) : (s.reset d).algo = s.algo := by
  unfold State.reset
  split
  · simp only [State.release]
    split
    · exact require_algo _ _
    · rfl
  · rfl

theorem waitLink_algo (d : CtxId) (q : QueueId) : (s.waitLink d q).algo = s.algo := by
  cases q with
  | primitive q => exact require_algo s _
  | join e => exact require_algo s _

theorem mem_awakened {d : CtxId} : c ∈ (s.awakened d).algo.ready ↔ c ∈ s.algo.ready ∨ c = d := by
  simp only [State.awakened, Algo.awakened, require_algo, List.mem_append, List.mem_singleton]

theorem mem_setReady {d : CtxId} : c ∈ (s.setReady d).algo.ready ↔ c = d ∨ c ∈ s.algo.ready := by
  rw [← mem_erase_append]
  simp only [State.setReady, mem_awakened, require_algo, List.mem_append, List.mem_singleton]

theorem mem_resume (d : CtxId) (r : Option CtxId) (hc : c ∈ s.algo.ready) :
    c ∈ (s.resume d r).algo.ready := by
  cases r with
  | none => exact hc
  | some e => exact (mem_setReady _).mpr (.inr hc)

theorem resume_active (d : CtxId) (r : Option CtxId) : (s.resume d r).active = d := by
  cases r with
  | none => rfl
  | some e => simp only [State.resume, State.setReady, State.awakened, require_active]

theorem resumeNext_active {rest : List CtxId} (hr : s.algo.ready = c :: rest)
    (hc : s.terminated c = false) (r : Option CtxId) : (s.resumeNext r).active = c := by
  rw [resumeNext_eq hr hc, resume_active]

theorem mem_resumeNext (r : Option CtxId) (hc : c ∈ s.algo.ready) :
    c ∈ (s.resumeNext r).algo.ready ∨ (s.resumeNext r).active = c := by
  obtain ⟨x, rest, hready⟩ := List.exists_cons_of_ne_nil (List.ne_nil_of_mem hc)
  by_cases hx : s.terminated x = true
  · left
    simp only [State.resumeNext, Algo.pickNext, hready, hx, if_true]
    exact hready ▸ hc
  · rw [resumeNext_eq hready (Bool.not_eq_true _ ▸ hx), resume_active]
    rw [hready, List.mem_cons] at hc
    rcases hc with hc | hc
    · exact .inr hc.symm
    · exact .inl (mem_resume _ x r hc)

theorem mem_schedulerSetTerminated (hc : c ∈ s.algo.ready) :
    c ∈ s.schedulerSetTerminated.algo.ready ∨ s.schedulerSetTerminated.active = c := by
  apply mem_resumeNext
  simp only [require_algo]
  exact hc

theorem mem_wake (d : CtxId) (hc : c ∈ s.algo.ready) : c ∈ (s.wake d).algo.ready := by
  refine (mem_setReady _).mpr (.inr ?_)
  simp only [State.waitUnlink, require_algo]
  exact hc

theorem mem_notifyJoiners (l : List CtxId) (hc : c ∈ s.algo.ready) :
    c ∈ (s.notifyJoiners l).algo.ready := by
  induction l generalizing s with
  | nil => exact hc
  | cons d rest ih => exact ih _ (mem_wake s d hc)

theorem releaseTerminated_algo (l : List CtxId) : (s.releaseTerminated l).algo = s.algo := by
  induction l generalizing s with
  | nil => rfl
  | cons d rest ih =>
    rw [State.releaseTerminated, ih]
    simp only [State.release]
    split
    · simp only [require_algo]
    · exact require_algo s _

theorem mem_sleep2ready (now : TimePoint) (l : List CtxId) (hc : c ∈ s.algo.ready) :
    c ∈ (s.sleep2ready now l).algo.ready := by
  induction l generalizing s with
  | nil => exact hc
  | cons d rest ih =>
    simp only [State.sleep2ready]
    split
    · apply ih
      rw [mem_awakened]
      left
      simp only [require_algo]
      exact hc
    · rw [require_algo]
      exact hc

theorem mem_notifyJoiners_of_mem {l : List CtxId} (hc : c ∈ l) :
    c ∈ (s.notifyJoiners l).algo.ready := by
  induction l generalizing s with
  | nil => exact absurd hc List.not_mem_nil
  | cons d rest ih =>
    rcases List.mem_cons.mp hc with rfl | hc
    · exact mem_notifyJoiners _ rest ((mem_setReady _).mpr (.inl rfl))
    · exact ih _ hc

theorem mem_moveReady (l : List CtxId) (hc : c ∈ s.algo.ready ∨ c ∈ l) :
    c ∈ (s.moveReady l).algo.ready := by
  induction l generalizing s with
  | nil => exact hc.resolve_right List.not_mem_nil
  | cons d rest ih =>
    apply ih
    rw [mem_awakened]
    rcases hc with hc | hc
    · exact .inl (.inl hc)
    · rcases List.mem_cons.mp hc with hc | hc
      · exact .inl (.inr hc)
      · exact .inr hc

variable {s} {t : State} {a : Action}

/-- A ready context stays ready until it is resumed. -/
theorem step_ready (hs : step s a = some t) (hc : c ∈ s.algo.ready) :
    c ∈ t.algo.ready ∨ t.active = c := by
  obtain ⟨_, rfl⟩ := step_perform hs
  cases a with
  | create policy =>
    left
    cases policy with
    | post =>
      refine (mem_setReady _).mpr (.inr ?_)
      simp only [require_algo]
      exact hc
    | dispatch =>
      apply mem_resume
      simp only [require_algo]
      exact hc
  | detach d =>
    left
    simp only [perform, reset_algo]
    exact hc
  | yield =>
    apply mem_resumeNext
    rw [require_algo]
    exact hc
  | suspend q =>
    apply mem_resumeNext
    rw [waitLink_algo]
    exact hc
  | waitUntil q sleepTp =>
    apply mem_resumeNext
    cases q with
    | none =>
      simp only [State.sleepLink, require_algo]
      exact hc
    | some q =>
      simp only [State.sleepLink, require_algo, waitLink_algo]
      exact hc
  | wake d => exact .inl (mem_wake s d hc)
  | join d =>
    by_cases ht : s.terminated d = true
    · left
      simp only [perform, State.join, ht, if_true, reset_algo]
      exact hc
    · simp only [perform, State.join, ht, Bool.false_eq_true, if_false]
      apply mem_resumeNext
      simp only [waitLink_algo]
      exact hc
  | setTerminated =>
    apply mem_schedulerSetTerminated
    exact mem_notifyJoiners _ _ hc
  | setAlgo kind => exact .inl (mem_moveReady _ _ (.inr hc))
  | resumed now =>
    left
    rcases hp : s.pc s.active with _ | sleepTp | d <;> simp only [perform, State.resumed, hp]
    · exact hc
    · by_cases hlt : now < sleepTp
      · simp only [hlt, if_true]
        exact hc
      · simp only [hlt, if_false]
        exact hc
    · simp only [State.returned, reset_algo]
      exact hc
  | dispatch now =>
    have hc' : c ∈ (State.sleep2ready ({ s with clock := now : State }.releaseTerminated
        s.terminatedQueue) now ({ s with clock := now : State }.releaseTerminated
          s.terminatedQueue).sleepQueue).algo.ready := by
      apply mem_sleep2ready
      rw [releaseTerminated_algo]
      exact hc
    simp only [perform, State.dispatch]
    generalize State.sleep2ready _ now _ = u at hc' ⊢
    obtain ⟨x, rest, hready⟩ := List.exists_cons_of_ne_nil (List.ne_nil_of_mem hc')
    simp only [Algo.pickNext, hready, resume_active]
    rw [hready, List.mem_cons] at hc'
    rcases hc' with hx | hx
    · exact .inr hx.symm
    · exact .inl (mem_resume _ x _ hx)

theorem setReady_active (s : State) (c : CtxId) : (s.setReady c).active = s.active := by
  simp only [State.setReady, State.awakened, require_active]

theorem wake_active (s : State) (c : CtxId) : (s.wake c).active = s.active := by
  simp only [State.wake, setReady_active, State.waitUnlink, require_active]

theorem create_post_active (s : State) : (s.create .post).active = s.active := by
  simp only [State.create, setReady_active, require_active]

theorem create_post_pc (s : State) : (s.create .post).pc = s.pc := by
  simp only [State.create, setReady_waits, require_waits]

theorem Scheduled.create_live {s : State} (h : Scheduled s) : (s.create .post).Live s.ncreated := by
  simp only [State.create, setReady_registry, require_registry]
  refine ⟨Nat.lt_succ_self _, ?_⟩
  rw [← Bool.not_eq_true]
  intro ht
  exact Nat.lt_irrefl _ (h.registered.terminated_worker _ ht).2

theorem Scheduled.dispatcher_live {s : State} (h : Scheduled s) : s.Live dispatcherCtx := by
  refine ⟨h.registered.system, ?_⟩
  rw [← Bool.not_eq_true]
  intro ht
  exact Nat.lt_irrefl _ (h.registered.terminated_worker _ ht).1

theorem yield_pc (s : State) : s.yield.pc = s.pc := by
  simp only [State.yield, resumeNext_waits, require_waits]

theorem Consistent.mem_yield {s : State} (h : Consistent s) (hd : s.active ≠ dispatcherCtx) :
    s.active ∈ s.yield.algo.ready := by
  obtain ⟨x, rest, hr⟩ := List.exists_cons_of_ne_nil (List.ne_nil_of_mem (h.dispatcher_ready hd))
  have hx : x ∈ s.algo.ready := by
    rw [hr]
    exact List.mem_cons_self
  rw [State.yield, State.require_pos
    ⟨h.active_live.2, h.active_not_ready, h.active_not_sleeping⟩,
    resumeNext_eq hr (h.ready_live x hx).2]
  exact (mem_setReady _).mpr (.inl rfl)

theorem setTerminated_active {rest : List CtxId} (h : Consistent s)
    (hempty : s.waitQueue s.active = []) (hr : s.algo.ready = c :: rest) :
    s.setTerminated.active = c := by
  have hc : c ∈ s.algo.ready := by
    rw [hr]
    exact List.mem_cons_self
  have hca : c ≠ s.active := fun he => h.active_not_ready (he ▸ hc)
  have hflag : Function.update s.terminated s.active true c = false := by
    rw [Function.update_of_ne hca]
    exact (h.ready_live c hc).2
  simp only [State.setTerminated, hempty, State.notifyJoiners, State.schedulerSetTerminated]
  refine resumeNext_active _ (?_ : _ = c :: rest) ?_ none
  · simp only [require_algo]
    exact hr
  · simp only [require_registry]
    exact hflag

theorem enabled_dispatcher (he : enabled s a = true) (hd : s.active = dispatcherCtx) :
    ∃ now, a = .dispatch now := by
  cases a with
  | dispatch now => exact ⟨now, rfl⟩
  | create policy => exact absurd hd (of_decide_eq_true he).1
  | yield => exact absurd hd (of_decide_eq_true he).1
  | suspend q => exact absurd hd (of_decide_eq_true he).1
  | waitUntil q sleepTp => exact absurd hd (of_decide_eq_true he).1
  | setAlgo kind => exact absurd hd (of_decide_eq_true he).1
  | detach d => exact absurd hd (of_decide_eq_true he).1.1
  | wake d => exact absurd hd (of_decide_eq_true he).1.1
  | join d => exact absurd hd (of_decide_eq_true he).1.1
  | setTerminated => exact absurd hd (of_decide_eq_true he).1.1
  | resumed now => exact absurd hd (of_decide_eq_true he).1

theorem step_dispatcher_pc (hs : step s a = some t) : t.pc dispatcherCtx = s.pc dispatcherCtx := by
  by_cases hd : s.active = dispatcherCtx
  · obtain ⟨now, rfl⟩ := enabled_dispatcher (step_perform hs).1 hd
    exact congrFun (step_pc_eq hs (by simp) (by simp) (by simp)) _
  · exact step_pc hs (Ne.symm hd)

theorem resumed_pc_active (s : State) (now : TimePoint) :
    (s.resumed now).pc s.active = .running := by
  rcases hp : s.pc s.active with _ | sleepTp | d <;> simp only [State.resumed, hp]
  · by_cases hlt : now < sleepTp
    · simp only [hlt, if_true, State.returned, Function.update_self]
    · simp only [hlt, if_false, State.returned, State.waitUnlink, Function.update_self]
  · simp only [State.returned, reset_active, State.waitUnlink, Function.update_self]

theorem waitUntil_pc_active (s : State) (q : Option Nat) (sleepTp : TimePoint) :
    (s.waitUntil q sleepTp).pc s.active = .waitUntil sleepTp := by
  cases q with
  | none =>
    simp only [State.waitUntil, resumeNext_waits, State.sleepLink, require_waits, require_active,
      Function.update_self]
  | some q =>
    have ha : (s.waitLink s.active (.primitive q)).active = s.active := require_active s _
    simp only [State.waitUntil, resumeNext_waits, State.sleepLink, require_waits, require_active,
      ha, Function.update_self]

theorem enabled_inUser (he : enabled s a = true) (hr : ∀ now, a ≠ .resumed now)
    (hd : ∀ now, a ≠ .dispatch now) : s.InUser := by
  cases a with
  | create | yield | suspend | waitUntil | setAlgo => exact of_decide_eq_true he
  | detach | wake | join | setTerminated => exact (of_decide_eq_true he).1
  | resumed now => exact absurd rfl (hr now)
  | dispatch now => exact absurd rfl (hd now)

/-- Behind a step the active context runs, or stands in the call it has made. -/
theorem step_pc_active (hs : step s a = some t) (hd : s.pc dispatcherCtx = .running) :
    t.pc s.active = .running ∨ (∃ q d, a = .waitUntil q d ∧ t.pc s.active = .waitUntil d) ∨
      ∃ d, a = .join d ∧ t.pc s.active = .joining d := by
  obtain ⟨he, hperform⟩ := step_perform hs
  cases a with
  | waitUntil q sleepTp =>
    rw [← hperform]
    exact .inr (.inl ⟨q, sleepTp, rfl, waitUntil_pc_active s q sleepTp⟩)
  | resumed now =>
    rw [← hperform]
    exact .inl (resumed_pc_active s now)
  | join d =>
    have hrunning := (enabled_inUser he (by simp) (by simp)).2
    rw [← hperform]
    by_cases ht : s.terminated d = true
    · left
      simp only [perform, State.join, ht, if_true, reset_waits, hrunning]
    · have hactive : (s.waitLink s.active (.join d)).active = s.active := require_active s _
      refine .inr (.inr ⟨d, rfl, ?_⟩)
      simp only [perform, State.join, ht, Bool.false_eq_true, if_false, resumeNext_waits, hactive,
        Function.update_self]
  | dispatch now =>
    rw [step_pc_eq hs (by simp) (by simp) (by simp), (of_decide_eq_true he).1]
    exact .inl hd
  | _ =>
    rw [step_pc_eq hs (by simp) (by simp) (by simp)]
    exact .inl (enabled_inUser he (by simp) (by simp)).2

end Ready

end Dumbo.Fiber.Scheduler
