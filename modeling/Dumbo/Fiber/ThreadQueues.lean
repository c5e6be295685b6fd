import Dumbo.Fiber.Threads

/-!
# The queues of ready workers

Whichever threads push and take, a queue of ready workers is first in, first out: no worker starves in it. Only
the thread that has it and those that steal take from the queue of a thread, so that what is left there when the
thread ends is never taken.
-/

namespace Dumbo.Fiber.Threads

open Transition

variable {T : Type} [DecidableEq T] {s s' : State T} {t : T} {c : CtxId T} {a : Action T} {algo : Algo}
  {suspend : Bool} {q : Option T}

omit [DecidableEq T] in
theorem ThreadPc.picks_eq_some {pc : ThreadPc T} {r : Option (CtxId T)} (h : pc.picks = some r) :
    pc = .picking r := by
  cases pc <;> simp_all [ThreadPc.picks]

omit [DecidableEq T] in
theorem ThreadPc.steals_eq_some {pc : ThreadPc T} {r : Option (CtxId T)} (h : pc.steals = some r) :
    pc = .stealing r := by
  cases pc <;> simp_all [ThreadPc.steals]

/-! ### What the operations of a thread leave of the queues -/

omit [DecidableEq T] in
@[simp]
theorem fail_rqueue (s : State T) (fault : Fault) : (s.fail fault).rqueue = s.rqueue := rfl

omit [DecidableEq T] in
@[simp]
theorem require_rqueue (s : State T) (p : Prop) [Decidable p] : (s.require p).rqueue = s.rqueue := by
  rw [State.require]
  split <;> rfl

@[simp]
theorem setThread_rqueue (s : State T) (t : T) (x : Thread T) : (s.setThread t x).rqueue = s.rqueue := rfl

@[simp]
theorem setPc_rqueue (s : State T) (t : T) (pc : ThreadPc T) : (s.setPc t pc).rqueue = s.rqueue := rfl

@[simp]
theorem getScheduler_rqueue (s : State T) (t : T) (c : CtxId T) : (s.getScheduler t c).rqueue = s.rqueue := by
  rw [State.getScheduler]
  split <;> rfl

@[simp]
theorem ownScheduler_rqueue (s : State T) (t : T) : (s.ownScheduler t).rqueue = s.rqueue :=
  getScheduler_rqueue s t _

variable [Fintype T]

@[simp]
theorem attach_rqueue (s : State T) (t : T) (c : CtxId T) : (s.attach t c).rqueue = s.rqueue := by
  simp [State.attach, State.workerLink, State.setScheduler]

@[simp]
theorem detach_rqueue (s : State T) (t : T) (c : CtxId T) : (s.detach t c).rqueue = s.rqueue := by
  simp only [State.detach, State.setScheduler, State.workerUnlink, require_rqueue]
  split <;> simp

@[simp]
theorem awakened_rqueue (s : State T) (t : T) (c : CtxId T) (next : Next) :
    (s.awakened t c next).rqueue = s.rqueue := by
  rw [State.awakened]
  split <;> simp

@[simp]
theorem setReady_rqueue (s : State T) (t : T) (c : CtxId T) : (s.setReady t c).rqueue = s.rqueue := by
  simp [State.setReady, State.readyUnlink, State.sleepUnlink]

@[simp]
theorem contextSetReady_rqueue (s : State T) (t : T) (c : CtxId T) :
    (s.contextSetReady t c).rqueue = s.rqueue := by
  simp only [State.contextSetReady]
  split <;> simp

@[simp]
theorem resume_rqueue (s : State T) (t : T) (c : CtxId T) (r : Option (CtxId T)) :
    (s.resume t c r).rqueue = s.rqueue := by
  cases r <;> simp [State.resume, State.setActive]

omit [Fintype T] in
@[simp]
theorem pickNull_rqueue (s : State T) (t : T) : (s.pickNull t).rqueue = s.rqueue := by
  rw [State.pickNull]
  split <;> simp

@[simp]
theorem pickLocal_rqueue (s : State T) (t : T) (r : Option (CtxId T)) :
    (s.pickLocal algo t r).rqueue = s.rqueue := by
  rw [State.pickLocal]
  split
  · simp
  · split <;> simp

@[simp]
theorem sleep2ready_rqueue (s : State T) (t : T) (now : Scheduler.TimePoint) :
    (s.sleep2ready t now).rqueue = s.rqueue := by
  rw [State.sleep2ready]
  split
  · simp
  · simp only
    split <;> simp

@[simp]
theorem releaseTerminated_rqueue (s : State T) (t : T) (l : List (CtxId T)) :
    (s.releaseTerminated t l).rqueue = s.rqueue := by
  induction l generalizing s with
  | nil => rfl
  | cons c rest ih => simp [State.releaseTerminated, ih, State.workerUnlink]

/-- A step that is no operation on a queue of ready workers. -/
theorem perform_rqueue (algo : Algo) (suspend : Bool) (s : State T) (hgo : ∀ t, a ≠ .go t)
    (hsteal : ∀ t v lost, a ≠ .steal t v lost) : (perform algo suspend s a).rqueue = s.rqueue := by
  cases a with
  | create t policy => cases policy <;> simp [perform, State.create]
  | yield t => simp [perform, State.yield]
  | suspend t q => simp [perform, State.suspend, State.waitLink]
  | waitUntil t sleepTp => simp [perform, State.waitUntil, State.sleepLink]
  | wake t c => simp [perform, State.wake, State.waitUnlink]
  | setTerminated t => simp [perform, State.setTerminated, State.terminatedLink]
  | destroy t => simp [perform, State.destroy, State.suspend, State.waitLink]
  | dispatch t now =>
    simp only [perform, State.dispatch, State.notify]
    split_ifs <;> simp [State.leave, State.waitUnlink, State.setActive]
  | go t => exact absurd rfl (hgo t)
  | lose t =>
    simp only [perform]
    cases (s.thread t).pc.picks <;> simp
  | steal t v lost => exact absurd rfl (hsteal t v lost)
  | suspendReturn t now => simp [perform, State.suspendReturn]

/-! ### The context that is taken is the next to run -/

omit [DecidableEq T] [Fintype T] in
theorem require_thread (s : State T) (p : Prop) [Decidable p] : (s.require p).thread = s.thread := by
  rw [State.require]
  split <;> rfl

omit [Fintype T] in
theorem ownScheduler_thread (s : State T) (t : T) : (s.ownScheduler t).thread = s.thread := by
  rw [State.ownScheduler, State.getScheduler]
  split <;> rfl

theorem detach_active (s : State T) (t u : T) (c : CtxId T) :
    ((s.detach t c).thread u).active = (s.thread u).active := by
  simp only [State.detach, State.setScheduler, State.workerUnlink, require_thread]
  split
  · simp only [State.fail, require_thread]
  · rw [require_thread]

theorem awakened_active (s : State T) (t : T) (c : CtxId T) (next : Next) :
    ((s.awakened t c next).thread t).active = (s.thread t).active := by
  rw [State.awakened]
  split
  · simp [State.setThread, require_thread]
  · simp [State.setPc, State.setThread, detach_active]

theorem setReady_active (s : State T) (t : T) (c : CtxId T) :
    ((s.setReady t c).thread t).active = (s.thread t).active := by
  simp [State.setReady, awakened_active, State.readyUnlink, State.sleepUnlink, require_thread]

theorem resume_active (s : State T) (t : T) (c : CtxId T) (r : Option (CtxId T)) :
    ((s.resume t c r).thread t).active = c := by
  cases r with
  | none => simp [State.resume, State.setPc, State.setActive, State.setThread]
  | some r => simp [State.resume, setReady_active, ownScheduler_thread, State.setActive, State.setThread]

/-! ### First in, first out -/

/-- The step takes the first context out of the queue. -/
def takes (algo : Algo) (q : Option T) (s : State T) : Action T → Bool
  | .go t => (s.thread t).pc.picks.isSome ∧ algo.rqueue t = q ∧ s.rqueue q ≠ []
  | .steal t victim lost => (s.thread t).pc.steals.isSome ∧ (s.thread victim).pc ≠ .destroyed ∧
    some victim = q ∧ lost = false ∧ s.rqueue q ≠ []
  | _ => false

def countTakes (algo : Algo) (suspend : Bool) (q : Option T) : State T → List (Action T) → Nat
  | _, [] => 0
  | s, a :: as => (takes algo q s a).toNat +
    ((step algo suspend s a).map fun s' => countTakes algo suspend q s' as).getD 0

/-- The thread has taken the context, and will run it next. -/
def Taken (algo : Algo) (suspend : Bool) (s : State T) (t : T) (c : CtxId T) : Prop :=
  (∃ r, (s.thread t).pc = .attaching c r) ∧
    ∀ s', step algo suspend s (.go t) = some s' → (s'.thread t).active = c

theorem taken_of_pc {r : Option (CtxId T)} (hpc : (s.thread t).pc = .attaching c r) :
    Taken algo suspend s t c := by
  refine ⟨⟨r, hpc⟩, fun s' hs => ?_⟩
  obtain ⟨-, rfl⟩ := Option.ite_none_right_eq_some.mp hs |>.imp_right Option.some.inj
  simp only [perform, State.go, hpc, Option.getD_some]
  exact resume_active _ t c r

omit [Fintype T] in
theorem pop_rqueue (s : State T) (t : T) (p : Option T) (c : CtxId T) (rest : List (CtxId T))
    (r : Option (CtxId T)) : (s.pop t p c rest r).rqueue = Function.update s.rqueue p rest := rfl

theorem taken_pop (s : State T) (t : T) (p : Option T) (c : CtxId T) (rest : List (CtxId T))
    (r : Option (CtxId T)) : Taken algo suspend (s.pop t p c rest r) t c :=
  taken_of_pc (r := r) (by simp [State.pop, State.setPc, State.setThread])

/-- What a step does to a queue of ready workers: only a thread whose queue it is appends to it. -/
def Changes (algo : Algo) (suspend : Bool) (q : Option T) (s : State T) (a : Action T) (s' : State T) : Prop :=
  (takes algo q s a = false ∧ ∃ ext, s'.rqueue q = s.rqueue q ++ ext ∧ (ext ≠ [] → ∃ t, q = algo.rqueue t)) ∨
    (takes algo q s a = true ∧ ∃ c t, s.rqueue q = c :: s'.rqueue q ∧ Taken algo suspend s' t c)

theorem changes_same (hno : takes algo q s a = false) (hq : s'.rqueue = s.rqueue) :
    Changes algo suspend q s a s' :=
  .inl ⟨hno, [], by rw [hq, List.append_nil], fun hne => absurd rfl hne⟩

theorem changes_pop {p : Option T} {rest : List (CtxId T)} {r : Option (CtxId T)} (hp : s.rqueue p = c :: rest)
    (htakes : takes algo q s a = decide (p = q)) : Changes algo suspend q s a (s.pop t p c rest r) := by
  by_cases hq : p = q
  · subst hq
    refine .inr ⟨by rw [htakes, decide_eq_true rfl], c, t, ?_, taken_pop s t p c rest r⟩
    rw [pop_rqueue, Function.update_self, hp]
  · refine .inl ⟨by rw [htakes, decide_eq_false hq], [], ?_, fun hne => absurd rfl hne⟩
    rw [pop_rqueue, Function.update_of_ne (Ne.symm hq), List.append_nil]

theorem go_changes (s : State T) (t : T) : Changes algo suspend q s (.go t) ((s.go algo t).getD s) := by
  cases hpc : (s.thread t).pc with
  | picking r =>
    simp only [State.go, hpc, Option.getD_some]
    rw [State.pickNext]
    split
    · rename_i c rest hq
      refine changes_pop hq ?_
      by_cases hp : algo.rqueue t = q
      · subst hp
        simp [takes, hpc, ThreadPc.picks, hq]
      · simp [takes, hp]
    · rename_i hq
      refine changes_same ?_ (pickLocal_rqueue s t r)
      by_cases hp : algo.rqueue t = q
      · subst hp
        simp [takes, hq]
      · simp [takes, hp]
  | pushing c next =>
    have hno : takes algo q s (.go t) = false := by simp [takes, hpc, ThreadPc.picks]
    simp only [State.go, hpc, Option.getD_some]
    by_cases hp : algo.rqueue t = q
    · subst hp
      refine .inl ⟨hno, [c], ?_, fun _ => ⟨t, rfl⟩⟩
      simp [State.setQueue]
    · refine .inl ⟨hno, [], ?_, fun hne => absurd rfl hne⟩
      simp [State.setQueue, Function.update_of_ne (Ne.symm hp)]
  | _ =>
    apply changes_same
    · simp [takes, hpc, ThreadPc.picks]
    · simp [State.go, hpc]

omit [Fintype T] in
theorem steal_null_rqueue {t v : T} {lost : Bool} {r : Option (CtxId T)}
    (hnull : s.rqueue (some v) = [] ∨ lost = true) :
    (s.steal t v lost r).rqueue = s.rqueue := by
  rw [State.steal]
  split
  · rfl
  · rcases hnull with hempty | hlost
    · rw [hempty]
      split <;> exact pickNull_rqueue s t
    · rw [if_pos hlost]
      exact pickNull_rqueue s t

theorem steal_changes {t v : T} {lost : Bool} {r : Option (CtxId T)} (hpc : (s.thread t).pc = .stealing r)
    (hthere : (s.thread v).pc ≠ .destroyed) :
    Changes algo suspend q s (.steal t v lost) (s.steal t v lost r) := by
  by_cases hnull : s.rqueue (some v) = [] ∨ lost = true
  · refine changes_same (decide_eq_false ?_) (steal_null_rqueue hnull)
    rintro ⟨-, -, rfl, hlost, hne⟩
    rcases hnull with hempty | hlost'
    · exact hne hempty
    · cases hlost.symm.trans hlost'
  · obtain ⟨hne, hlost⟩ := not_or.mp hnull
    obtain ⟨c, rest, hq⟩ := List.exists_cons_of_ne_nil hne
    have hlost : lost = false := Bool.eq_false_iff.mpr hlost
    have hsteal : s.steal t v lost r = s.pop t (some v) c rest r := by
      rw [State.steal, if_neg hthere, hlost, hq]
      rfl
    rw [hsteal]
    apply changes_pop hq
    by_cases hv : some v = q
    · subst hv
      simp [takes, hpc, ThreadPc.steals, hthere, hlost, hq]
    · simp [takes, hv]

theorem step_rqueue (q : Option T) (hs : step algo suspend s a = some s') :
    Changes algo suspend q s a s' := by
  obtain ⟨⟨-, henabled⟩, rfl⟩ := Option.ite_none_right_eq_some.mp hs |>.imp_right Option.some.inj
  cases a with
  | go t => exact go_changes s t
  | steal t v lost =>
    obtain ⟨hsteals, -⟩ := of_decide_eq_true henabled
    obtain ⟨r, hr⟩ := Option.isSome_iff_exists.mp hsteals
    simp only [perform, hr, Option.elim_some]
    by_cases hthere : (s.thread v).pc = .destroyed
    · apply changes_same
      · simp [takes, hthere]
      · simp [State.steal, hthere]
    · exact steal_changes (ThreadPc.steals_eq_some hr) hthere
  | _ => exact changes_same rfl (perform_rqueue algo suspend s (by simp) (by simp))

/-- Only the queues of the algorithm are used. -/
theorem queues_used (h : (machine T algo suspend).Reachable s) (hq : s.rqueue q ≠ []) :
    ∃ t, q = algo.rqueue t := by
  refine h.invariant (P := fun s => s.rqueue q ≠ [] → ∃ t, q = algo.rqueue t)
    (fun hne => absurd rfl hne) ?_ hq
  intro s a s' hused hs hne
  rcases step_rqueue q hs with ⟨-, ext, hext, hgrows⟩ | ⟨-, c, t, htaken, -⟩
  · by_cases hempty : ext = []
    · rw [hempty, List.append_nil] at hext
      exact hused (hext ▸ hne)
    · exact hgrows hempty
  · exact hused (by rw [htaken]; exact List.cons_ne_nil _ _)

/-- A worker in a queue of ready workers is taken by some thread in the course of as many takings from it as
there are contexts before it and one more, whatever the threads do meanwhile; and that thread runs it next. -/
theorem ready_queue_fair {as : List (Action T)} (hc : c ∈ s.rqueue q)
    (hrun : (machine T algo suspend).exec s as = some s')
    (hcount : (s.rqueue q).idxOf c < countTakes algo suspend q s as) :
    ∃ as₁ as₂ u t, as = as₁ ++ as₂ ∧ (machine T algo suspend).exec s as₁ = some u ∧
      Taken algo suspend u t c := by
  induction as generalizing s with
  | nil => exact absurd hcount (Nat.not_lt_zero _)
  | cons a as ih =>
    obtain ⟨u, hu, hrun⟩ := Machine.exec_cons.mp hrun
    have hstep : step algo suspend s a = some u := hu
    simp only [countTakes, hstep, Option.map_some, Option.getD_some] at hcount
    have hlater : c ∈ u.rqueue q → (u.rqueue q).idxOf c < countTakes algo suspend q u as →
        ∃ as₁ as₂ v t, a :: as = as₁ ++ as₂ ∧ (machine T algo suspend).exec s as₁ = some v ∧
          Taken algo suspend v t c := by
      intro hmem hlt
      obtain ⟨as₁, as₂, v, t, rfl, hv, htaken⟩ := ih hmem hrun hlt
      exact ⟨a :: as₁, as₂, v, t, rfl, Machine.exec_cons.mpr ⟨u, hu, hv⟩, htaken⟩
    rcases step_rqueue q hstep with ⟨hnone, ext, hq, -⟩ | ⟨htakes, d, t, hq, htaken⟩
    · rw [hnone] at hcount
      apply hlater
      · rw [hq]
        exact List.mem_append_left _ hc
      · rw [hq, List.idxOf_append_of_mem hc]
        simpa using hcount
    · by_cases hd : d = c
      · subst hd
        exact ⟨[a], as, u, t, rfl, Machine.exec_cons.mpr ⟨u, hu, rfl⟩, htaken⟩
      · rw [hq] at hc hcount
        rw [List.idxOf_cons_ne _ hd, htakes] at hcount
        apply hlater ((List.mem_cons.mp hc).resolve_left (Ne.symm hd))
        simp only [Bool.toNat_true] at hcount
        omega

end Dumbo.Fiber.Threads
