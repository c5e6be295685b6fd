import Dumbo.Reactor.EventLoop
import Dumbo.Fiber.SchedulerSteps

/-!
# Messages at shutdown

The loop ends when the reactor is stopped and only the main context and the dispatcher are left. Each
accepted message is in the inbox, in the batch being received, with a fiber, or finished; and the main
context looks at the inbox again as long as something keeps it in the loop.
-/

namespace Dumbo.Reactor.EventLoop

open Transition
open Fiber.Scheduler (CtxId mainCtx dispatcherCtx Scheduled Registered Registry)

def LoopPc.batch : LoopPc → List MsgId
  | .receive batch => batch
  | _ => []

/-- What keeps the main context in the loop, or brings it there, until it has received the inbox. -/
def State.Pending (s : State) : Prop :=
  (s.loop = .outside ∨ s.loop = .poll ∨ s.loop = .drain) ∨ s.running = true ∨
    (∃ c, dispatcherCtx < c ∧ s.sched.Live c) ∨ (∃ c, s.sched.joinable c = true) ∨
    (s.sched.active = mainCtx ∧ s.sched.terminatedQueue ≠ [])

structure Invariant (s : State) : Prop where
  scheduled : Scheduled s.sched
  main_running : s.loop ≠ .outside → s.sched.pc mainCtx = .running
  main_ready : s.loop ≠ .outside → s.sched.active = mainCtx ∨ mainCtx ∈ s.sched.algo.ready
  main_active : s.loop ≠ .outside → s.loop ≠ .test → s.sched.active = mainCtx
  ring_drain : s.ring ≠ [] → s.loop = .drain
  pending : s.inbox ≠ [] → s.Pending
  received : ∀ batch, s.loop = .receive batch → s.inbox = []
  left_empty : s.loop = .left → s.inbox = [] ∧ ∀ c, s.handler c = none
  handler_live : ∀ c m, s.handler c = some m → dispatcherCtx < c ∧ s.sched.Live c
  handled : ∀ m ∈ s.accepted, m ∈ s.inbox ∨ m ∈ s.loop.batch ∨ (∃ c, s.handler c = some m) ∨
    (s.processed m = true ∧ s.finished m = true)
  returns : ∀ m, m ∈ s.inbox ∨ m ∈ s.loop.batch → (s.message m).isReturn = true →
    s.processed m = true

/-- The last fiber ends ahead of the dispatcher's turn, which is ahead of the main context's, while
the reactor is stopped and its inbox is not empty. -/
def State.LastFiber (s : State) : Prop :=
  s.loop = .test ∧ s.running = false ∧ s.inbox ≠ [] ∧
    s.sched.algo.ready = [dispatcherCtx, mainCtx] ∧
    (∀ c ∈ s.sched.workerQueue, c = s.sched.active ∨ s.sched.terminated c = true) ∧
    ∀ c < s.sched.ncreated, s.sched.joinable c = false

instance (s : State) : Decidable s.LastFiber :=
  inferInstanceAs (Decidable (_ ∧ _))

/-- The condition on a step. -/
def StepOk (s : State) : Action → Prop
  | .sched .setTerminated => ¬ s.LastFiber
  | _ => True

variable {s t : State}

/-- When nothing is counted, nothing keeps the main context in the loop. -/
theorem Invariant.not_pending (h : Invariant s) (hl : s.loop = .test) (hr : s.running = false)
    (hc : ¬ 2 < s.sched.contexts) : ¬ s.Pending := by
  have hreg := h.scheduled.registered
  rintro (hloop | hrun | ⟨c, hd, hlive⟩ | ⟨c, hj⟩ | ⟨_, hq⟩)
  · rw [hl] at hloop
    simp only [reduceCtorEq, or_self] at hloop
  · rw [hr] at hrun
    exact Bool.false_ne_true hrun
  · exact hc (hreg.two_lt_contexts hd hlive.1 (.inr (hreg.unreleased c hd hlive)))
  · have hw := hreg.joinable_worker c hj
    exact hc (hreg.two_lt_contexts hw.1 hw.2 (.inl hj))
  · obtain ⟨c, rest, hcons⟩ := List.exists_cons_of_ne_nil hq
    have hm := hreg.terminated_mem c (by rw [hcons]; exact List.mem_cons_self)
    have hw := hreg.worker_mem c hm.2
    exact hc (hreg.two_lt_contexts hw.1 hw.2 (.inr hm.2))

theorem Invariant.fiber_pending (h : Invariant s) (hf : s.InFiber) :
    s.loop = .outside ∨ ∃ c, dispatcherCtx < c ∧ s.sched.Live c := by
  by_cases hm : s.sched.active = mainCtx
  · exact .inl (hf.2 hm)
  · refine .inr ⟨s.sched.active, ?_, h.scheduled.active_live⟩
    exact Nat.lt_of_le_of_ne (Nat.pos_of_ne_zero hm) hf.1.1.symm

theorem State.Pending.of_fiber
    (h : s.loop = .outside ∨ ∃ c, dispatcherCtx < c ∧ s.sched.Live c) : s.Pending := by
  rcases h with hl | hc
  · exact .inl (.inl hl)
  · exact .inr (.inr (.inl hc))

theorem Invariant.submitTo (h : Invariant s) (hf : s.InFiber) (m : MsgId)
    (hm : (s.message m).isReturn = true → s.processed m = true) : Invariant (s.submitTo m) := by
  have hfiber := h.fiber_pending hf
  obtain ⟨hsch, hmr, hmd, hma, hring, hpend, hrec, hleft, hlive, hhand, hret⟩ := h
  have hmain : ∀ {pc : LoopPc}, s.loop = pc → pc ≠ .outside → pc ≠ .test → False := by
    intro pc hl ho ht
    have ha := hma (hl ▸ ho) (hl ▸ ht)
    exact ho (hl ▸ hf.2 ha)
  refine ⟨hsch, hmr, hmd, hma, hring, fun _ => ?_, ?_, ?_, hlive, ?_, ?_⟩
  · exact .of_fiber hfiber
  · intro batch hl
    exact (hmain hl (by simp) (by simp)).elim
  · intro hl
    exact (hmain hl (by simp) (by simp)).elim
  · intro x hx
    rcases List.mem_append.mp hx with hx | hx
    · rcases hhand x hx with hi | hrest
      · exact .inl (List.mem_append_left _ hi)
      · exact .inr hrest
    · exact .inl (List.mem_append_right _ hx)
  · intro x hx hr
    rcases hx with hx | hx
    · rcases List.mem_append.mp hx with hx | hx
      · exact hret x (.inl hx) hr
      · rw [List.mem_singleton.mp hx] at hr ⊢
        exact hm hr
    · exact hret x (.inr hx) hr

theorem Invariant.make (h : Invariant s) {m : Message} (hm : m.isReturn = false) :
    Invariant (s.make m) := by
  obtain ⟨hsch, hmr, hmd, hma, hring, hpend, hrec, hleft, hlive, hhand, hret⟩ := h
  refine ⟨hsch, hmr, hmd, hma, hring, hpend, hrec, hleft, hlive, hhand, ?_⟩
  intro x hx hr
  by_cases hxn : x = s.nmsgs
  · simp only [State.make, hxn, Function.update_self, hm, Bool.false_eq_true] at hr
  · simp only [State.make, Function.update_of_ne hxn] at hr
    exact hret x hx hr

theorem Invariant.send (h : Invariant s) (hf : s.InFiber) {m : Message}
    (hm : m.isReturn = false) : Invariant ((s.make m).submitTo s.nmsgs) := by
  apply (h.make hm).submitTo hf
  intro hr
  simp only [State.make, Function.update_self, hm, Bool.false_eq_true] at hr

theorem mayCall_main {a : Fiber.Scheduler.Action} (hmay : s.mayCall a = true)
    (hen : Fiber.Scheduler.enabled s.sched a = true) (hm : s.sched.active = mainCtx) :
    s.loop = .outside := by
  cases a with
  | setAlgo kind => exact absurd hmay Bool.false_ne_true
  | setTerminated => exact absurd hm (of_decide_eq_true hen).2
  | create policy => exact of_decide_eq_true hmay hm
  | detach c => exact of_decide_eq_true hmay hm
  | yield => exact of_decide_eq_true hmay hm
  | suspend q => exact of_decide_eq_true hmay hm
  | waitUntil q sleepTp => exact of_decide_eq_true hmay hm
  | wake c => exact of_decide_eq_true hmay hm
  | join c => exact of_decide_eq_true hmay hm
  | resumed now => exact of_decide_eq_true hmay hm
  | dispatch now => exact of_decide_eq_true hmay hm

theorem eq_pair_of_nodup {l : List CtxId} {x y : CtxId} (hn : l.Nodup)
    (hmem : ∀ z ∈ l, z = x ∨ z = y) (hx : x ∈ l) (hy : y ∈ l) (hxy : x ≠ y) :
    l = [x, y] ∨ l = [y, x] := by
  have hperm : List.Perm l [x, y] := by
    refine (List.perm_ext_iff_of_nodup hn ?_).mpr ?_
    · simpa only [List.nodup_cons, List.mem_singleton, List.not_mem_nil, not_false_eq_true,
        List.nodup_nil, and_true] using hxy
    · intro z
      simp only [List.mem_cons, List.not_mem_nil, or_false]
      refine ⟨hmem z, ?_⟩
      rintro (rfl | rfl)
      · exact hx
      · exact hy
  have hlen := hperm.length_eq
  match l, hlen with
  | [u, v], _ =>
    have hu := hmem u List.mem_cons_self
    have hv := hmem v (List.mem_cons_of_mem u List.mem_cons_self)
    rw [List.nodup_cons, List.mem_singleton] at hn
    rcases hu with rfl | rfl
    · exact .inl (by rw [hv.resolve_left fun he => hn.1 he.symm])
    · exact .inr (by rw [hv.resolve_right fun he => hn.1 he.symm])

/-- When a fiber ends, something else keeps the main context in the loop, or the main context is next
and finds the fiber not yet released. -/
theorem Invariant.pending_setTerminated (h : Invariant s) (hu : s.sched.InUser)
    (hm : s.sched.active ≠ mainCtx) (hok : ¬ s.LastFiber) (hi : s.inbox ≠ []) :
    State.Pending { s with sched := s.sched.setTerminated } := by
  have hsch := h.scheduled
  obtain ⟨_, hreg⟩ := hsch.toConsistent.setTerminated hu hm
  by_cases hloop : s.loop = .outside
  · exact .inl (.inl hloop)
  by_cases hrun : s.running = true
  · exact .inr (.inl hrun)
  by_cases hother : ∃ c, dispatcherCtx < c ∧ c ≠ s.sched.active ∧ s.sched.Live c
  · obtain ⟨c, hd, hca, hlive⟩ := hother
    refine .inr (.inr (.inl ⟨c, hd, ?_⟩))
    rw [hreg]
    exact ⟨hlive.1, by simpa only [Function.update_of_ne hca] using hlive.2⟩
  by_cases hjoin : ∃ c, s.sched.joinable c = true
  · obtain ⟨c, hj⟩ := hjoin
    refine .inr (.inr (.inr (.inl ⟨c, ?_⟩)))
    rw [hreg]
    exact hj
  -- only the main context and the dispatcher are left
  have htest : s.loop = .test := by
    by_contra ht
    exact hm (h.main_active hloop ht)
  have hsystem : ∀ c, s.sched.Live c → c ≠ s.sched.active → c = mainCtx ∨ c = dispatcherCtx := by
    intro c hlive hca
    have hle : c ≤ dispatcherCtx := by
      by_contra hd
      exact hother ⟨c, Nat.lt_of_not_le hd, hca, hlive⟩
    rcases Nat.le_one_iff_eq_zero_or_eq_one.mp hle with h0 | h1
    · exact .inl h0
    · exact .inr h1
  have hmain : mainCtx ∈ s.sched.algo.ready := (h.main_ready hloop).resolve_left hm
  have hready := eq_pair_of_nodup hsch.ready_nodup
    (fun c hc => (hsystem c (hsch.ready_live c hc) fun he => hsch.active_not_ready (he ▸ hc)).symm)
    (hsch.dispatcher_ready hu.1) hmain (by decide)
  have hhead : s.sched.algo.ready = [mainCtx, dispatcherCtx] := by
    refine hready.resolve_left fun hr => hok ⟨htest, Bool.not_eq_true _ ▸ hrun, hi, hr, ?_, ?_⟩
    · intro c hc
      by_contra hne
      rw [not_or] at hne
      have hw := hsch.registered.worker_mem c hc
      exact hother ⟨c, hw.1, hne.1, hw.2, Bool.not_eq_true _ ▸ hne.2⟩
    · intro c _
      rw [← Bool.not_eq_true]
      exact fun hj => hjoin ⟨c, hj⟩
  have hempty : s.sched.waitQueue s.sched.active = [] := by
    apply List.eq_nil_iff_forall_not_mem.mpr
    intro c hc
    have hq := (hsch.queue_hook c _).mp hc
    have hlive := hsch.hook_live c _ hq
    have hca : c ≠ s.sched.active := by
      rintro rfl
      rw [hsch.not_linked hu.2] at hq
      exact Option.some_ne_none _ hq.symm
    rcases hsystem c hlive.1 hca with rfl | hcd
    · obtain ⟨tp, hp, _⟩ := hsch.hook_timedOut mainCtx _ hq hmain
      rw [h.main_running hloop] at hp
      exact absurd hp (by simp only [reduceCtorEq, not_false_eq_true])
    · exact hlive.2 hcd
  refine .inr (.inr (.inr (.inr ⟨?_, ?_⟩)))
  · exact Fiber.Scheduler.setTerminated_active hsch.toConsistent hempty hhead
  · rw [hreg]
    simp only [ne_eq, List.append_eq_nil_iff, List.cons_ne_self, and_false, not_false_eq_true]

theorem Invariant.sched (h : Invariant s) {a : Fiber.Scheduler.Action}
    {u : Fiber.Scheduler.State} (hmay : s.mayCall a = true)
    (hok : a = .setTerminated → ¬ s.LastFiber) (hs : Fiber.Scheduler.step s.sched a = some u) :
    Invariant { s with sched := u } := by
  have hfull := h
  obtain ⟨hsch, hmr, hmd, hma, hring, hpend, hrec, hleft, hlive, hhand, hret⟩ := h
  have hnew : Scheduled u := hsch.step hs
  obtain ⟨hen, hu⟩ := Fiber.Scheduler.step_perform hs
  have hmain : s.loop ≠ .outside → mainCtx ≠ s.sched.active := by
    intro ho ha
    exact ho (mayCall_main hmay hen ha.symm)
  have hkeep : ∀ c m, s.handler c = some m → dispatcherCtx < c ∧ u.Live c := by
    intro c m hc
    have hl := hlive c m hc
    refine ⟨hl.1, ?_⟩
    by_cases hend : a = .setTerminated
    · subst hend
      have hen' := of_decide_eq_true hen
      have hca : c ≠ s.sched.active := by
        rintro rfl
        rw [of_decide_eq_true hmay] at hc
        exact Option.some_ne_none m hc.symm
      obtain ⟨_, hreg⟩ := hsch.toConsistent.setTerminated hen'.1 hen'.2
      rw [← hu]
      simp only [Fiber.Scheduler.perform, hreg]
      exact ⟨hl.2.1, by simpa only [Function.update_of_ne hca] using hl.2.2⟩
    · exact Fiber.Scheduler.step_live hs hend hl.2
  refine ⟨hnew, ?_, ?_, ?_, hring, ?_, hrec, hleft, hkeep, hhand, hret⟩
  · intro ho
    rw [Fiber.Scheduler.step_pc hs (hmain ho)]
    exact hmr ho
  · intro ho
    exact (Fiber.Scheduler.step_ready hs ((hmd ho).resolve_left (hmain ho).symm)).symm
  · intro ho ht
    exact absurd (hma ho ht).symm (hmain ho)
  · intro hi
    by_cases hend : a = .setTerminated
    · subst hend
      have hen' := of_decide_eq_true hen
      rw [← hu]
      exact hfull.pending_setTerminated hen'.1 hen'.2 (hok rfl) hi
    by_cases hloop : s.loop = .outside
    · exact .inl (.inl hloop)
    rcases hpend hi with hl | hrun | ⟨c, hd, hc⟩ | ⟨c, hj⟩ | ⟨ha, _⟩
    · exact .inl hl
    · exact .inr (.inl hrun)
    · exact .inr (.inr (.inl ⟨c, hd, Fiber.Scheduler.step_live hs hend hc⟩))
    · by_cases hdisp : s.sched.active = dispatcherCtx
      · obtain ⟨now, rfl⟩ := Fiber.Scheduler.enabled_dispatcher hen hdisp
        refine .inr (.inr (.inr (.inl ⟨c, ?_⟩)))
        rw [← hu]
        simp only [Fiber.Scheduler.perform, (Fiber.Scheduler.dispatch_agree s.sched now).joinable]
        exact hj
      · have hlt : dispatcherCtx < s.sched.active :=
          Nat.lt_of_le_of_ne (Nat.pos_of_ne_zero (hmain hloop).symm) (Ne.symm hdisp)
        exact .inr (.inr (.inl ⟨_, hlt, Fiber.Scheduler.step_live hs hend hsch.active_live⟩))
    · exact absurd ha.symm (hmain hloop)

theorem Invariant.main_call (h : Invariant s) (ho : s.loop ≠ .outside)
    (ha : s.sched.active = mainCtx) : s.sched.InUser := by
  refine ⟨?_, ?_⟩
  · rw [ha]
    decide
  · rw [ha]
    exact h.main_running ho

theorem Invariant.resume (h : Invariant s) (ho : s.loop ≠ .outside)
    (ha : s.sched.active = mainCtx) (hi : s.inbox ≠ [] → s.loop = .drain) (c : CtxId) :
    Invariant (s.resume c) := by
  have huser := h.main_call ho ha
  obtain ⟨hsch, hmr, hmd, hma, hring, hpend, hrec, hleft, hlive, hhand, hret⟩ := h
  unfold State.resume
  by_cases hw : s.sched.waitHook c = none
  · rw [if_pos hw]
    exact ⟨hsch, hmr, hmd, hma, hring, hpend, hrec, hleft, hlive, hhand, hret⟩
  · rw [if_neg hw]
    have hs : Fiber.Scheduler.step s.sched (.wake c) = some (s.sched.wake c) :=
      if_pos (decide_eq_true ⟨huser, hw⟩)
    have hact : (s.sched.wake c).active = mainCtx := by
      rw [Fiber.Scheduler.wake_active, ha]
    refine ⟨hsch.step hs, ?_, fun _ => .inl hact, fun _ _ => hact, hring, ?_, hrec, hleft, ?_,
      hhand, hret⟩
    · intro _
      rw [Fiber.Scheduler.wake_pc]
      exact hmr ho
    · exact fun hne => .inl (.inr (.inr (hi hne)))
    · intro d m hd
      have hl := hlive d m hd
      exact ⟨hl.1, Fiber.Scheduler.step_live hs (by simp) hl.2⟩

theorem Invariant.setFinished (h : Invariant s) (m : MsgId) :
    Invariant { s with finished := Function.update s.finished m true } := by
  obtain ⟨hsch, hmr, hmd, hma, hring, hpend, hrec, hleft, hlive, hhand, hret⟩ := h
  refine ⟨hsch, hmr, hmd, hma, hring, hpend, hrec, hleft, hlive, ?_, hret⟩
  intro x hx
  rcases hhand x hx with hin | hb | hc | ⟨hp, hf⟩
  · exact .inl hin
  · exact .inr (.inl hb)
  · exact .inr (.inr (.inl hc))
  · refine .inr (.inr (.inr ⟨hp, ?_⟩))
    by_cases hxm : x = m
    · rw [hxm]
      exact Function.update_self ..
    · simp only [Function.update_of_ne hxm]
      exact hf

theorem Invariant.finish (h : Invariant s) {m : MsgId} (ho : s.loop ≠ .outside)
    (ha : s.sched.active = mainCtx) (hi : s.inbox ≠ [] → s.loop = .drain) :
    Invariant (s.finish m) := by
  have hfin := h.setFinished m
  simp only [State.finish]
  split
  · exact hfin
  · exact hfin.resume ho ha hi _

theorem Invariant.spawn {batch : List MsgId} (h : Invariant s) (hloop : s.loop = .receive batch)
    (ha : s.sched.active = mainCtx) (m : MsgId) :
    Invariant { s with
      sched := (s.sched.create .post).reset s.sched.ncreated
      handler := Function.update s.handler s.sched.ncreated (some m) } := by
  have ho : s.loop ≠ .outside := by simp only [hloop, ne_eq, reduceCtorEq, not_false_eq_true]
  have hi := h.received batch hloop
  have huser := h.main_call ho ha
  obtain ⟨hsch, hmr, hmd, hma, hring, hpend, hrec, hleft, hlive, hhand, hret⟩ := h
  have hcreate : Fiber.Scheduler.step s.sched (.create .post) = some (s.sched.create .post) :=
    if_pos (decide_eq_true huser)
  have hnew := (hsch.create huser .post).reset (c := s.sched.ncreated)
  have hact : ((s.sched.create .post).reset s.sched.ncreated).active = mainCtx := by
    rw [Fiber.Scheduler.reset_active, Fiber.Scheduler.create_post_active, ha]
  have hkeep : ∀ c, s.sched.Live c → ((s.sched.create .post).reset s.sched.ncreated).Live c := by
    intro c hc
    have hc' := Fiber.Scheduler.step_live hcreate (by simp) hc
    exact ⟨by rw [Fiber.Scheduler.reset_ncreated]; exact hc'.1,
      by rw [Fiber.Scheduler.reset_terminated]; exact hc'.2⟩
  have hff : ((s.sched.create .post).reset s.sched.ncreated).Live s.sched.ncreated := by
    have hl := hsch.create_live
    exact ⟨by rw [Fiber.Scheduler.reset_ncreated]; exact hl.1,
      by rw [Fiber.Scheduler.reset_terminated]; exact hl.2⟩
  refine ⟨hnew, ?_, fun _ => .inl hact, fun _ _ => hact, hring, ?_, hrec, ?_, ?_, ?_, hret⟩
  · intro _
    rw [Fiber.Scheduler.reset_waits]
    have hpc := Fiber.Scheduler.create_post_pc s.sched
    rw [hpc]
    exact hmr ho
  · exact fun hne => absurd hi hne
  · intro hl
    rw [show s.loop = .left from hl] at hloop
    exact absurd hloop (by simp only [reduceCtorEq, not_false_eq_true])
  · intro c x hc
    by_cases hcn : c = s.sched.ncreated
    · rw [hcn]
      exact ⟨hsch.registered.system, hff⟩
    · simp only [Function.update_of_ne hcn] at hc
      have hl := hlive c x hc
      exact ⟨hl.1, hkeep c hl.2⟩
  · intro x hx
    rcases hhand x hx with hin | hb | ⟨c, hc⟩ | hdone
    · exact .inl hin
    · exact .inr (.inl hb)
    · refine .inr (.inr (.inl ⟨c, ?_⟩))
      have hcn : c ≠ s.sched.ncreated := Nat.ne_of_lt (hlive c x hc).2.1
      simp only [Function.update_of_ne hcn]
      exact hc
    · exact .inr (.inr (.inr hdone))

theorem processFn_loop (m : MsgId) (pc : LoopPc) :
    { s with loop := pc : State }.processFn m = { s.processFn m with loop := pc } := by
  unfold State.processFn
  by_cases hr : (s.message m).isReturn = true
  · simp only [hr, if_true, State.finish]
    split
    · rfl
    · simp only [State.resume]
      split <;> rfl
  · simp only [hr, if_false, Bool.false_eq_true]

theorem processFn_handled (m : MsgId) :
    ((s.message m).isReturn = true → (s.processFn m).finished m = true) ∧
      ((s.message m).isReturn = false → ∃ c, (s.processFn m).handler c = some m) ∧
      (s.processFn m).processed = s.processed ∧ (s.processFn m).loop = s.loop := by
  unfold State.processFn
  by_cases hr : (s.message m).isReturn = true
  · simp only [hr, if_true, State.finish, State.resume]
    split
    · simp
    · split <;> simp
  · simp only [hr, if_false, Bool.false_eq_true]
    refine ⟨?_, ?_, trivial, trivial⟩
    · exact fun h => absurd h (by simp)
    · exact fun _ => ⟨_, Function.update_self ..⟩

theorem Invariant.receive {m : MsgId} {rest : List MsgId} (h : Invariant s)
    (hloop : s.loop = .receive (m :: rest)) (ha : s.sched.active = mainCtx) :
    Invariant ({ s with loop := .receive rest : State }.processFn m) := by
  have ho : s.loop ≠ .outside := by simp only [hloop, ne_eq, reduceCtorEq, not_false_eq_true]
  have hi : s.inbox = [] := h.received _ hloop
  have hprocessed : (s.message m).isReturn = true → s.processed m = true := by
    apply h.returns m
    rw [hloop]
    exact .inr List.mem_cons_self
  have hfn : Invariant (s.processFn m) := by
    by_cases hr : (s.message m).isReturn = true
    · rw [State.processFn, if_pos hr]
      exact h.finish ho ha fun hne => absurd hi hne
    · rw [State.processFn, if_neg hr]
      exact h.spawn hloop ha m
  obtain ⟨hfin, hhandler, hproc, hl⟩ := processFn_handled (s := s) m
  rw [processFn_loop]
  rw [hloop] at hl
  obtain ⟨hsch, hmr, hmd, hma, hring, hpend, hrec, hleft, hlive, hhand, hret⟩ := hfn
  rw [hl] at hmr hmd hma hring hrec hhand hret
  have hempty := hrec _ rfl
  have hact := hma (by simp) (by simp)
  refine ⟨hsch, fun _ => hmr (by simp), fun _ => .inl hact, fun _ _ => hact, ?_, ?_, ?_, ?_,
    hlive, ?_, ?_⟩
  · intro hne
    exact absurd (hring hne) (by simp)
  · exact fun hne => absurd hempty hne
  · exact fun _ _ => hempty
  · exact fun hleft => absurd hleft (by simp)
  · intro x hx
    rcases hhand x hx with hin | hb | hc | hdone
    · exact .inl hin
    · rcases List.mem_cons.mp hb with rfl | hb
      · by_cases hr : (s.message x).isReturn = true
        · exact .inr (.inr (.inr ⟨by rw [hproc]; exact hprocessed hr, hfin hr⟩))
        · exact .inr (.inr (.inl (hhandler (Bool.not_eq_true _ ▸ hr))))
      · exact .inr (.inl hb)
    · exact .inr (.inr (.inl hc))
    · exact .inr (.inr (.inr hdone))
  · intro x hx
    apply hret x
    rcases hx with hx | hx
    · exact .inl hx
    · exact .inr (List.mem_cons_of_mem m hx)

theorem Invariant.setProcessed (h : Invariant s) (m : MsgId) :
    Invariant { s with processed := Function.update s.processed m true } := by
  obtain ⟨hsch, hmr, hmd, hma, hring, hpend, hrec, hleft, hlive, hhand, hret⟩ := h
  have hkeep : ∀ x, s.processed x = true → Function.update s.processed m true x = true := by
    intro x hx
    by_cases hxm : x = m
    · rw [hxm]
      exact Function.update_self ..
    · rw [Function.update_of_ne hxm]
      exact hx
  refine ⟨hsch, hmr, hmd, hma, hring, hpend, hrec, hleft, hlive, ?_, ?_⟩
  · intro x hx
    rcases hhand x hx with hin | hb | hc | ⟨hp, hf⟩
    · exact .inl hin
    · exact .inr (.inl hb)
    · exact .inr (.inr (.inl hc))
    · exact .inr (.inr (.inr ⟨hkeep x hp, hf⟩))
  · intro x hx hr
    exact hkeep x (hret x hx hr)

theorem Invariant.setReturn (h : Invariant s) {m : MsgId} (hp : s.processed m = true) :
    Invariant { s with
      message := Function.update s.message m { s.message m with isReturn := true } } := by
  obtain ⟨hsch, hmr, hmd, hma, hring, hpend, hrec, hleft, hlive, hhand, hret⟩ := h
  refine ⟨hsch, hmr, hmd, hma, hring, hpend, hrec, hleft, hlive, hhand, ?_⟩
  intro x hx hr
  by_cases hxm : x = m
  · rw [hxm]
    exact hp
  · simp only [Function.update_of_ne hxm] at hr
    exact hret x hx hr

theorem Invariant.clearHandler (h : Invariant s) {c : CtxId} {m : MsgId}
    (hc : s.handler c = some m)
    (hm : m ∈ s.inbox ∨ (s.processed m = true ∧ s.finished m = true)) :
    Invariant { s with handler := Function.update s.handler c none } := by
  obtain ⟨hsch, hmr, hmd, hma, hring, hpend, hrec, hleft, hlive, hhand, hret⟩ := h
  refine ⟨hsch, hmr, hmd, hma, hring, hpend, hrec, ?_, ?_, ?_, hret⟩
  · intro hl
    rw [(hleft hl).2 c] at hc
    exact absurd hc.symm (Option.some_ne_none m)
  · intro d x hd
    by_cases hdc : d = c
    · simp only [hdc, Function.update_self, reduceCtorEq] at hd
    · simp only [Function.update_of_ne hdc] at hd
      exact hlive d x hd
  · intro x hx
    rcases hhand x hx with hin | hb | ⟨d, hd⟩ | hdone
    · exact .inl hin
    · exact .inr (.inl hb)
    · by_cases hdc : d = c
      · rw [hdc, hc, Option.some.injEq] at hd
        rw [← hd]
        rcases hm with hm | hm
        · exact .inl hm
        · exact .inr (.inr (.inr hm))
      · refine .inr (.inr (.inl ⟨d, ?_⟩))
        simp only [Function.update_of_ne hdc]
        exact hd
    · exact .inr (.inr (.inr hdone))

theorem Invariant.complete (h : Invariant s) (hf : s.InFiber) {m : MsgId}
    (hc : s.handler s.sched.active = some m) : Invariant (s.complete s.sched.active m) := by
  have hproc := h.setProcessed m
  simp only [State.complete]
  by_cases how : (s.message m).oneWay = true
  · rw [if_pos how]
    exact (hproc.setFinished m).clearHandler hc
      (.inr ⟨Function.update_self .., Function.update_self ..⟩)
  · rw [if_neg how]
    have hsend := (hproc.setReturn (Function.update_self ..)).submitTo hf m
      fun _ => Function.update_self ..
    exact hsend.clearHandler hc (.inl (List.mem_append_right _ (List.mem_singleton.mpr rfl)))

theorem Invariant.run (h : Invariant s) (hl : s.atLoop .outside) (hu : s.sched.InUser) :
    Invariant { (s.make ⟨true, false, none⟩).submitTo s.nmsgs with
      running := true, sched := s.sched.setAlgo .reactor, loop := .test } := by
  have hset := Fiber.Scheduler.setAlgo_eq h.scheduled.ready_nodup .reactor
  obtain ⟨hsch, hmr, hmd, hma, hring, hpend, hrec, hleft, hlive, hhand, hret⟩ :=
    h.send (m := ⟨true, false, none⟩) ⟨hu, fun _ => hl.2⟩ rfl
  refine ⟨h.scheduled.setAlgo .reactor, ?_, ?_, ?_, ?_, ?_, ?_, ?_, ?_, ?_, ?_⟩
  · intro _
    rw [hset]
    exact hl.1 ▸ hu.2
  · intro _
    rw [hset]
    exact .inl hl.1
  · exact fun _ ht => absurd rfl ht
  · intro hne
    exact absurd (hl.2.symm.trans (hring hne)) (by simp)
  · exact fun _ => .inr (.inl rfl)
  · exact fun _ hr => absurd hr (by simp)
  · exact fun hl => absurd hl (by simp)
  · rw [hset]
    exact hlive
  · intro x hx
    have hx' := hhand x hx
    rw [show ((s.make ⟨true, false, none⟩).submitTo s.nmsgs).loop = .outside from hl.2] at hx'
    exact hx'
  · intro x hx
    apply hret x
    rw [show ((s.make ⟨true, false, none⟩).submitTo s.nmsgs).loop = .outside from hl.2]
    exact hx

theorem Invariant.setLoop (h : Invariant s) {pc : LoopPc} (ha : s.sched.active = mainCtx)
    (hpc : pc = .poll ∨ pc = .drain) (ho : s.loop ≠ .outside) (hb : s.loop.batch = [])
    (ring : List (Option CtxId)) (hr : ring ≠ [] → pc = .drain) :
    Invariant { s with loop := pc, ring := ring } := by
  obtain ⟨hsch, hmr, hmd, hma, hring, hpend, hrec, hleft, hlive, hhand, hret⟩ := h
  have hpb : pc.batch = [] := by
    rcases hpc with rfl | rfl <;> rfl
  refine ⟨hsch, fun _ => hmr ho, fun _ => .inl ha, fun _ _ => ha, hr, ?_, ?_, ?_, hlive, ?_, ?_⟩
  · exact fun _ => .inl (.inr hpc)
  · intro batch hl
    rcases hpc with rfl | rfl <;> exact absurd hl (by simp)
  · intro hl
    rcases hpc with rfl | rfl <;> exact absurd hl (by simp)
  · intro x hx
    have hx' := hhand x hx
    rw [hb] at hx'
    rw [hpb]
    exact hx'
  · intro x hx
    apply hret x
    rw [hb]
    rw [hpb] at hx
    exact hx

/-- The main context leaves the loop: nothing was pending. -/
theorem Invariant.leave (h : Invariant s) (hl : s.atLoop .test)
    (hc : ¬ (s.running = true ∨ defaultContexts < s.sched.contexts)) :
    Invariant { s with loop := .left } := by
  rw [not_or] at hc
  have hidle := h.not_pending hl.2 (Bool.not_eq_true _ ▸ hc.1) hc.2
  have hempty : s.inbox = [] := by
    by_contra hne
    exact hidle (h.pending hne)
  obtain ⟨hsch, hmr, hmd, hma, hring, hpend, hrec, hleft, hlive, hhand, hret⟩ := h
  have ho : s.loop ≠ .outside := by
    rw [hl.2]
    simp
  have hnone : ∀ c, s.handler c = none := by
    intro c
    rcases hh : s.handler c with _ | m
    · rfl
    · have hw := hlive c m hh
      exact absurd (.inr (.inr (.inl ⟨c, hw⟩))) hidle
  have hb : s.loop.batch = [] := by rw [hl.2]; rfl
  rw [hb] at hhand hret
  refine ⟨hsch, fun _ => hmr ho, fun _ => .inl hl.1, fun _ _ => hl.1, ?_, ?_, ?_, ?_, hlive,
    hhand, hret⟩
  · intro hne
    exact absurd (hl.2.symm.trans (hring hne)) (by simp)
  · exact fun hne => absurd hempty hne
  · exact fun _ hr => absurd hr (by simp)
  · exact fun _ => ⟨hempty, hnone⟩

theorem Invariant.setRing (h : Invariant s) (hl : s.loop = .drain) (ring : List (Option CtxId)) :
    Invariant { s with ring := ring } := by
  obtain ⟨hsch, hmr, hmd, hma, hring, hpend, hrec, hleft, hlive, hhand, hret⟩ := h
  exact ⟨hsch, hmr, hmd, hma, fun _ => hl, hpend, hrec, hleft, hlive, hhand, hret⟩

theorem Invariant.receiveAll (h : Invariant s) (hl : s.atLoop .drain) (hr : s.ring = []) :
    Invariant { s with inbox := [], loop := .receive s.inbox } := by
  obtain ⟨hsch, hmr, hmd, hma, hring, hpend, hrec, hleft, hlive, hhand, hret⟩ := h
  have ho : s.loop ≠ .outside := by
    rw [hl.2]
    simp
  have hb : s.loop.batch = [] := by rw [hl.2]; rfl
  rw [hb] at hhand hret
  refine ⟨hsch, fun _ => hmr ho, fun _ => .inl hl.1, fun _ _ => hl.1, ?_, ?_, ?_, ?_, hlive,
    ?_, ?_⟩
  · exact fun hne => absurd hr hne
  · exact fun hne => absurd rfl hne
  · exact fun _ _ => rfl
  · exact fun hleft => absurd hleft (by simp)
  · intro x hx
    rcases hhand x hx with hin | hb | hrest
    · exact .inr (.inl hin)
    · exact absurd hb List.not_mem_nil
    · exact .inr (.inr hrest)
  · intro x hx
    apply hret x
    rcases hx with hx | hx
    · exact .inr hx
    · exact .inl hx

theorem Invariant.yield (h : Invariant s) (hl : s.atLoop (.receive [])) :
    Invariant { s with sched := s.sched.yield, loop := .test } := by
  have ho : s.loop ≠ .outside := by
    rw [hl.2]
    simp
  have huser := h.main_call ho hl.1
  have hi := h.received [] hl.2
  obtain ⟨hsch, hmr, hmd, hma, hring, hpend, hrec, hleft, hlive, hhand, hret⟩ := h
  have hs : Fiber.Scheduler.step s.sched .yield = some s.sched.yield :=
    if_pos (decide_eq_true huser)
  have hb : s.loop.batch = [] := by rw [hl.2]; rfl
  rw [hb] at hhand hret
  refine ⟨hsch.yield huser, ?_, ?_, ?_, ?_, ?_, ?_, ?_, ?_, hhand, hret⟩
  · intro _
    rw [Fiber.Scheduler.yield_pc]
    exact hmr ho
  · intro _
    exact .inr (hl.1 ▸ hsch.toConsistent.mem_yield huser.1)
  · exact fun _ ht => absurd rfl ht
  · intro hne
    exact absurd (hl.2.symm.trans (hring hne)) (by simp)
  · exact fun hne => absurd hi hne
  · exact fun _ hr => absurd hr (by simp)
  · exact fun hleft => absurd hleft (by simp)
  · intro c m hc
    have hw := hlive c m hc
    exact ⟨hw.1, Fiber.Scheduler.step_live hs (by simp) hw.2⟩

theorem Invariant.stop (h : Invariant s) (hf : s.InFiber) :
    Invariant { s with running := false } := by
  have hfiber := h.fiber_pending hf
  obtain ⟨hsch, hmr, hmd, hma, hring, hpend, hrec, hleft, hlive, hhand, hret⟩ := h
  exact ⟨hsch, hmr, hmd, hma, hring, fun _ => .of_fiber hfiber, hrec, hleft, hlive, hhand, hret⟩

theorem Invariant.start : Invariant start := by
  refine ⟨Scheduled.start, fun ho => absurd rfl ho, fun ho => absurd rfl ho,
    fun ho => absurd rfl ho, fun hne => absurd rfl hne, fun hne => absurd rfl hne, ?_, ?_, ?_, ?_,
    ?_⟩
  · exact fun _ hr => absurd hr (by simp [EventLoop.start])
  · exact fun hl => absurd hl (by simp [EventLoop.start])
  · exact fun c m hc => absurd hc (by simp [EventLoop.start])
  · exact fun m hm => absurd hm List.not_mem_nil
  · rintro m (hm | hm)
    · exact absurd hm List.not_mem_nil
    · exact absurd hm List.not_mem_nil

theorem Invariant.step {a : Action} (h : Invariant s) (hok : StepOk s a)
    (hs : machine.step s a = some t) : Invariant t := by
  simp only [machine] at hs
  cases a with
  | sched a =>
    simp only [EventLoop.step, Option.ite_none_right_eq_some, Option.map_eq_some_iff] at hs
    obtain ⟨⟨_, hmay⟩, u, hu, rfl⟩ := hs
    refine h.sched hmay ?_ hu
    rintro rfl
    exact hok
  | runAt =>
    simp only [EventLoop.step, Option.ite_none_right_eq_some, Option.some.injEq] at hs
    obtain ⟨⟨_, hf, ho⟩, rfl⟩ := hs
    have hsend := h.send (m := ⟨false, false, some s.sched.active⟩) hf rfl
    have hmain : s.sched.active ≠ mainCtx := fun ha => ho (hf.2 ha)
    refine hsend.sched (a := .suspend reactorQueue) ?_ (fun he => absurd he (by simp)) ?_
    · exact decide_eq_true fun ha => absurd ha hmain
    · exact if_pos (decide_eq_true hf.1)
  | runAtAsync =>
    simp only [EventLoop.step, Option.ite_none_right_eq_some, Option.some.injEq] at hs
    obtain ⟨⟨_, hf⟩, rfl⟩ := hs
    exact h.send hf rfl
  | stop =>
    simp only [EventLoop.step, Option.ite_none_right_eq_some, Option.some.injEq] at hs
    obtain ⟨⟨_, hf⟩, rfl⟩ := hs
    exact h.stop hf
  | complete =>
    simp only [EventLoop.step] at hs
    rcases hc : s.handler s.sched.active with _ | m <;> rw [hc] at hs
    · exact absurd hs (by simp)
    · simp only [Option.ite_none_right_eq_some, Option.some.injEq] at hs
      obtain ⟨⟨_, hf⟩, rfl⟩ := hs
      exact h.complete hf hc
  | run =>
    simp only [EventLoop.step, Option.ite_none_right_eq_some, Option.some.injEq] at hs
    obtain ⟨⟨_, hl, hu⟩, rfl⟩ := hs
    exact h.run hl hu
  | test =>
    simp only [EventLoop.step, Option.ite_none_right_eq_some] at hs
    obtain ⟨⟨_, hl⟩, hs⟩ := hs
    by_cases hc : s.running = true ∨ defaultContexts < s.sched.contexts
    · rw [if_pos hc, Option.some.injEq] at hs
      subst hs
      have hring : s.ring = [] := by
        by_contra hne
        exact absurd (hl.2.symm.trans (h.ring_drain hne)) (by simp)
      exact h.setLoop hl.1 (.inl rfl) (by rw [hl.2]; simp) (by rw [hl.2]; rfl) s.ring
        fun hne => absurd hring hne
    · rw [if_neg hc, Option.some.injEq] at hs
      subst hs
      exact h.leave hl hc
  | poll events =>
    simp only [EventLoop.step, Option.ite_none_right_eq_some, Option.some.injEq] at hs
    obtain ⟨⟨_, hl⟩, rfl⟩ := hs
    exact h.setLoop hl.1 (.inr rfl) (by rw [hl.2]; simp) (by rw [hl.2]; rfl) _ fun _ => rfl
  | drain =>
    simp only [EventLoop.step, Option.ite_none_right_eq_some] at hs
    obtain ⟨⟨_, hl⟩, hs⟩ := hs
    have ho : s.loop ≠ .outside := by
      rw [hl.2]
      simp
    rcases hr : s.ring with _ | ⟨_ | c, rest⟩ <;> rw [hr] at hs <;>
      simp only [Option.some.injEq, reduceCtorEq] at hs <;> subst hs
    · exact h.setRing hl.2 rest
    · exact (h.setRing hl.2 rest).resume ho hl.1 (fun _ => hl.2) c
  | receiveAll =>
    simp only [EventLoop.step, Option.ite_none_right_eq_some, Option.some.injEq] at hs
    obtain ⟨⟨_, hl, hr⟩, rfl⟩ := hs
    exact h.receiveAll hl hr
  | receive =>
    simp only [EventLoop.step] at hs
    rcases hl : s.loop with _ | _ | _ | _ | ⟨_ | ⟨m, rest⟩⟩ | _ <;> rw [hl] at hs <;>
      simp only [Option.ite_none_right_eq_some, Option.some.injEq, reduceCtorEq] at hs
    obtain ⟨⟨_, ha⟩, rfl⟩ := hs
    exact h.receive hl ha
  | yield =>
    simp only [EventLoop.step, Option.ite_none_right_eq_some, Option.some.injEq] at hs
    obtain ⟨⟨_, hl⟩, rfl⟩ := hs
    exact h.yield hl

/-- When the event loop is left, the ring buffer and the inbox are empty and every message that was
submitted has been processed and finished, as long as no fiber ends the way `LastFiber` says. -/
theorem shutdown_drops_nothing (h : machine.ReachableWith StepOk s) (hl : s.loop = .left) :
    s.ring = [] ∧ s.inbox = [] ∧
      ∀ m ∈ s.accepted, s.processed m = true ∧ s.finished m = true := by
  have hi : Invariant s := h.invariant Invariant.start fun _ _ _ hi hok hs => hi.step hok hs
  obtain ⟨hempty, hnone⟩ := hi.left_empty hl
  refine ⟨?_, hempty, ?_⟩
  · by_contra hne
    exact absurd (hl.symm.trans (hi.ring_drain hne)) (by simp)
  · intro m hm
    rcases hi.handled m hm with hin | hb | ⟨c, hc⟩ | hdone
    · rw [hempty] at hin
      exact absurd hin List.not_mem_nil
    · rw [hl] at hb
      exact absurd hb List.not_mem_nil
    · rw [hnone c] at hc
      exact absurd hc.symm (Option.some_ne_none m)
    · exact hdone

def stepCheck (s : State) : Action → Bool
  | .sched .setTerminated => ¬ s.LastFiber
  | _ => true

theorem stepOk_of_check {a : Action} (h : stepCheck s a = true) : StepOk s a := by
  cases a with
  | sched a =>
    cases a with
    | setTerminated => exact (of_decide_eq_true h : ¬ s.LastFiber)
    | _ => trivial
  | _ => trivial

/-- The application's fiber submits a message and stops the reactor at once. -/
theorem shutdown_drops_nothing_atOnce : ∃ s, machine.ReachableWith StepOk s ∧
    s.accepted = [0, 1] ∧ s.inbox = [] ∧
      ∀ m ∈ s.accepted, s.processed m = true ∧ s.finished m = true := by
  obtain ⟨s, hs, hl, hm⟩ : ∃ s, (machine.guarded stepCheck).exec machine.start
      [.run, .test, .poll [], .receiveAll, .receive, .yield, .sched (.dispatch 0), .runAtAsync,
        .stop, .complete, .sched .setTerminated, .test, .poll [], .receiveAll, .receive, .yield,
        .sched (.dispatch 0), .complete, .sched .setTerminated, .test, .poll [], .receiveAll,
        .yield, .sched (.dispatch 0), .test] = some s ∧ s.loop = .left ∧ s.accepted = [0, 1] :=
    ⟨_, rfl, rfl, rfl⟩
  have hr : machine.ReachableWith StepOk s :=
    (Machine.reachableWith_of_exec hs).mono fun _ _ => stepOk_of_check
  have hdone := shutdown_drops_nothing hr hl
  exact ⟨s, hr, hm, hdone.2⟩

/-- The application's fiber sleeps, so that it is readied between the main context and the
dispatcher; then it submits a message, stops the reactor and ends. The dispatcher destroys it before
the main context looks at the number of contexts. -/
theorem shutdown_drops_message : ∃ s, machine.Reachable s ∧ s.loop = .left ∧
    s.running = false ∧ s.sched.contexts = defaultContexts ∧
    1 ∈ s.accepted ∧ s.inbox = [1] ∧ s.processed 1 = false ∧ s.finished 1 = false := by
  obtain ⟨s, hs, hp⟩ : ∃ s, machine.exec machine.start
      [.run, .test, .poll [], .receiveAll, .receive, .yield, .sched (.dispatch 0),
        .sched (.waitUntil none 1), .test, .poll [], .receiveAll, .yield, .sched (.dispatch 1),
        .test, .poll [], .receiveAll, .yield, .sched (.resumed 1), .runAtAsync, .stop, .complete,
        .sched .setTerminated, .sched (.dispatch 1), .test] = some s ∧ s.loop = .left ∧
      s.running = false ∧ s.sched.contexts = defaultContexts ∧ 1 ∈ s.accepted ∧ s.inbox = [1] ∧
      s.processed 1 = false ∧ s.finished 1 = false :=
    ⟨_, rfl, rfl, rfl, rfl, by decide, rfl, rfl, rfl⟩
  exact ⟨s, Machine.reachable_of_exec hs, hp⟩

end Dumbo.Reactor.EventLoop
