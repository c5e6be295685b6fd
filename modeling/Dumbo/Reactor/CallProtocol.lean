import Dumbo.Reactor.CallInvariant

/-!
# The protocol of a cross-reactor call

Each action of a reactor's thread moves at most one message on to its next event.
-/

namespace Dumbo.Reactor.Call

open Transition

variable {ε ρ : Type} [Inhabited ρ]

/-! ### Switching fibers -/

theorem Inv.switch {s : State ε ρ} {f : FiberId} {status : Status} {a : Option FiberId} (hi : Inv s)
    (hlt : f < s.nfibers) (hlinked : (s.fiber f).linked = false)
    (hold : ∀ g, s.active (s.fiber f).cpu = some g → g = f) (hnew : ∀ g, a = some g → g = f)
    (hstatus : status = .active ↔ a = some f) (hsuspended : status ≠ .suspended)
    (hcall : a = none → (s.fiber f).call = none) :
    Inv ((s.setFiber f { s.fiber f with status := status }).setActive (s.fiber f).cpu a) := by
  have hx : ((s.setFiber f { s.fiber f with status := status }).setActive (s.fiber f).cpu a).fiber f =
      { s.fiber f with status := status } := Function.update_self _ _ _
  have hcontrol : ((s.setFiber f { s.fiber f with status := status }).setActive (s.fiber f).cpu a).hasControl
      f ↔ a = some f := by
    rw [State.hasControl, hx]
    show Function.update s.active _ a _ = _ ↔ _
    rw [Function.update_self]
  refine hi.quiet hi.fault (hi.active_switch (x := { s.fiber f with status := status }) rfl hnew)
    (hi.fibers (fun g hgf => Function.update_of_ne hgf _ _)
      (control_switch (x := { s.fiber f with status := status }) rfl hold hnew) (Nat.le_refl _)
      (Nat.le_refl _) ?_) hi.inbox rfl fun k => ?_
  · constructor
    · exact fun hle => absurd hlt (Nat.not_lt.mpr hle)
    · rw [hcontrol, hx]
      exact hstatus
    · rw [hx, hlinked]
      exact ⟨fun h => absurd h Bool.false_ne_true, fun h => absurd h hsuspended⟩
    · rw [hx, hlinked]
      exact fun h => absurd h Bool.false_ne_true
    · rw [hcontrol, hx]
      intro k pc hk _
      cases ha : a with
      | none => exact absurd ((hcall ha).symm.trans hk) (by simp)
      | some g => rw [hnew g ha]
    · rw [hx]
      exact (hi.fiber f).call
    · rw [hx]
      exact (hi.fiber f).handler
  · exact .of_fiber (x := { s.fiber f with status := status }) rfl rfl (fun _ => Iff.rfl) rfl rfl rfl
      (fun _ => Iff.rfl) (fun _ => Iff.rfl) fun _ _ => rfl

theorem inv_schedule {n : Nat} {s t : State ε ρ} {f : FiberId} (hi : Inv s)
    (h : step n s (.schedule f) = some t) : Inv t := by
  simp only [Call.step, Option.ite_none_right_eq_some, Option.some.injEq] at h
  obtain ⟨⟨hlt, hready, hidle, -⟩, rfl⟩ := h
  have hlinked : (s.fiber f).linked = false := by
    by_contra hl
    have hs := (hi.fiber f).linked.mp (by simpa using hl)
    rw [hready] at hs
    exact absurd hs (by decide)
  refine hi.switch hlt hlinked (fun g hg => ?_) (fun g hg => (Option.some.inj hg).symm) (by simp) (by decide)
    fun h => absurd h (by simp)
  rw [hidle] at hg
  exact absurd hg (by simp)

theorem Inv.release {s : State ε ρ} {f : FiberId} {status : Status} (hi : Inv s) (hc : s.hasControl f)
    (hcall : (s.fiber f).call = none) (hactive : status ≠ .active) (hsuspended : status ≠ .suspended) :
    Inv ((s.setFiber f { s.fiber f with status := status }).setActive (s.fiber f).cpu none) := by
  have hf := hi.fiber f
  refine hi.switch (hf.lt_of_control hc) (hf.not_linked hc) (fun g hg => ?_)
    (fun g hg => absurd hg (by simp)) (by simpa using hactive) hsuspended fun _ => hcall
  rw [hc, Option.some.injEq] at hg
  exact hg.symm

theorem inv_yield {n : Nat} {s t : State ε ρ} {f : FiberId} (hi : Inv s)
    (h : step n s (.yield f) = some t) : Inv t := by
  simp only [Call.step, Option.ite_none_right_eq_some, Option.some.injEq] at h
  obtain ⟨⟨hc, hu⟩, rfl⟩ := h
  exact hi.release hc (Fiber.call_of_inUserCode hu) (by decide) (by decide)

theorem inv_terminate {n : Nat} {s t : State ε ρ} {f : FiberId} (hi : Inv s)
    (h : step n s (.terminate f) = some t) : Inv t := by
  simp only [Call.step, Option.ite_none_right_eq_some, Option.some.injEq] at h
  obtain ⟨⟨hc, hu⟩, rfl⟩ := h
  exact hi.release hc (Fiber.call_of_atEnd hu) (by decide) (by decide)

theorem inv_spawn {n : Nat} {s t : State ε ρ} {r : Cpu} (hi : Inv s)
    (h : step n s (.spawn r) = some t) : Inv t := by
  simp only [Call.step, Option.ite_none_right_eq_some, Option.some.injEq] at h
  obtain ⟨-, rfl⟩ := h
  obtain ⟨hcall, hhandler, -⟩ := (hi.fiber s.nfibers).fresh (Nat.le_refl _)
  refine hi.quiet hi.fault (hi.active_of rfl fun g hg => ?_) (hi.fibers_spawn none fun k pc hk => by simp at hk)
    hi.inbox rfl fun k => .of_spawn rfl rfl (fun _ => Iff.rfl) rfl rfl ⟨hcall, hhandler⟩ fun pc => by simp
  exact congrArg Fiber.cpu (Function.update_of_ne (Nat.ne_of_lt hg) _ _)

theorem inv_make {s : State ε ρ} {f : FiberId} {target : Cpu} {w : Bool} (hi : Inv s)
    (hc : s.hasControl f) (hu : (s.fiber f).inUserCode) : Inv (s.make f target w) := by
  have hf := hi.fiber f
  have hcall := Fiber.call_of_inUserCode hu
  have hfiber : (s.make f target w).fiber =
      Function.update s.fiber f { s.fiber f with call := some (s.nmsgs, .made target w) } := rfl
  have hx : (s.make f target w).fiber f =
      { s.fiber f with call := some (s.nmsgs, .made target w) } := by rw [hfiber, Function.update_self]
  have hcpu : ∀ g, ((s.make f target w).fiber g).cpu = (s.fiber g).cpu ∧
      ((s.make f target w).fiber g).handler = (s.fiber g).handler := by
    intro g
    by_cases hgf : g = f
    · rw [hgf, hx]
      exact ⟨rfl, rfl⟩
    · rw [hfiber, Function.update_of_ne hgf]
      exact ⟨rfl, rfl⟩
  -- nothing is known of a number that has not been given yet
  have hnew : ∀ {g : FiberId} {pc : CallPc}, (s.fiber g).call ≠ some (s.nmsgs, pc) :=
    fun hk => Nat.lt_irrefl _ ((hi.fiber _).call _ _ hk)
  have hnew' : ∀ {g : FiberId} {pc : HandlerPc}, (s.fiber g).handler ≠ some (s.nmsgs, pc) :=
    fun hk => Nat.lt_irrefl _ ((hi.fiber _).handler _ _ hk)
  refine hi.advance s.nmsgs ⟨f, (s.fiber f).cpu, target, w⟩ .made hi.fault
    (hi.active_of rfl fun g _ => (hcpu g).1)
    (hi.fibers_control hc hfiber rfl rfl rfl rfl rfl (Nat.le_succ _) (fun k pc hk => ?_)
      fun k pc hk => Nat.lt_succ_of_lt (hf.handler k pc hk))
    (fun r => ⟨(hi.inbox r).1, fun k hk => Nat.lt_succ_of_lt ((hi.inbox r).2 k hk)⟩)
    (fun k => Nat.lt_succ_iff_lt_or_eq) (fun k hk => ?_) ?_
  · obtain ⟨rfl, -⟩ := Prod.mk.inj (Option.some.inj hk)
    exact Nat.lt_succ_self _
  · refine .of_fiber (Function.update_of_ne hk _ _) (Function.update_of_ne hk _ _) (fun _ => Iff.rfl)
      hfiber rfl rfl (fun _ => Iff.rfl) (fun pc => ?_) fun _ _ => rfl
    show some (s.nmsgs, CallPc.made target w) = some (k, pc) ↔ (s.fiber f).call = some (k, pc)
    rw [hcall]
    simp [hk.symm]
  · refine ⟨?_, ?_, fun r => ?_, fun g pc hg => absurd hg (by simp [Stage.handlerAt]), fun g pc hg => ?_,
      fun _ => ⟨.made target w, by rw [hx]⟩, fun g pc hg => ?_, ⟨hf.lt_of_control hc, (hcpu f).1⟩,
      fun h out hst => by simp at hst⟩
    · show Function.update s.trace s.nmsgs (s.trace s.nmsgs ++ _) s.nmsgs = _
      rw [Function.update_self, hi.unused s.nmsgs (Nat.le_refl _)]
      rfl
    · exact Function.update_self _ _ _
    · refine ⟨fun hm => absurd ((hi.inbox r).2 _ hm) (Nat.lt_irrefl _), fun hat => ?_⟩
      exact absurd hat (by simp [Info.inboxAt])
    · rw [(hcpu g).2] at hg
      exact absurd hg hnew'
    · by_cases hgf : g = f
      · rw [hgf, hx, Option.some.injEq, Prod.mk.injEq] at hg
        exact ⟨hgf, hg.2.symm⟩
      · rw [hfiber, Function.update_of_ne hgf] at hg
        exact absurd hg hnew

theorem inv_submit {n : Nat} {s t : State ε ρ} {f : FiberId} (hi : Inv s)
    (h : step n s (.submit f) = some t) : Inv t := by
  simp only [Call.step] at h
  split at h <;> simp only [Option.ite_none_right_eq_some, Option.some.injEq, reduceCtorEq] at h
  rename_i m target w hcall
  obtain ⟨hc, rfl⟩ := h
  have hm := (hi.fiber f).call m _ hcall
  obtain ⟨c, st, hp⟩ := hi.message m hm
  obtain ⟨rfl, rfl, rfl, rfl⟩ := hp.of_made hcall
  have hnot : ∀ r, m ∉ s.inbox r := fun r => by simp [hp.inbox, Info.inboxAt]
  refine hi.act (x := { s.fiber c.caller with call := if c.oneWay then none else some (m, .sent) }) hc
    hi.fault rfl rfl rfl rfl rfl rfl rfl hm (hi.inbox_submitTo hm (hnot _))
    (fun k hk => Function.update_of_ne hk _ _) (fun _ _ => rfl) (fun k hk => mem_submitTo hk _)
    (fun _ _ _ => Iff.rfl) (fun k hk pc => ?_)
    (hp.atCaller .sent rfl rfl rfl rfl ?_ hp.heap (mem_submitTo_self hnot c.target) rfl
      (fun _ => id) (fun hw => ?_) (fun pc hpc => ?_) fun g out hst => by simp at hst)
  · rw [hcall]
    split_ifs <;> simp [hk.symm]
  · rw [log_trace]
    show s.trace m ++ _ = _
    rw [hp.trace]
    rfl
  · change c.oneWay = false at hw
    exact ⟨.sent, by simp [hw]⟩
  · cases hw : c.oneWay with
    | true =>
      rw [hw] at hpc
      exact absurd hpc (by simp)
    | false =>
      rw [hw] at hpc
      exact ⟨hw, .inl (Prod.mk.inj (Option.some.inj hpc)).2.symm⟩

theorem inv_suspend {n : Nat} {s t : State ε ρ} {f : FiberId} (hi : Inv s)
    (h : step n s (.suspend f) = some t) : Inv t := by
  simp only [Call.step] at h
  split at h <;> simp only [Option.ite_none_right_eq_some, Option.some.injEq, reduceCtorEq] at h
  rename_i m hcall
  obtain ⟨hc, rfl⟩ := h
  have hf := hi.fiber f
  have hm := hf.call m _ hcall
  obtain ⟨c, st, hp⟩ := hi.message m hm
  obtain ⟨rfl, -, hst⟩ := hp.of_sent hcall
  -- the assertion of `Scheduler::suspend`
  simp only [State.suspend, hf.not_linked hc, Bool.false_eq_true, if_false]
  let x : Fiber := { s.fiber c.caller with status := .suspended, linked := true, call := some (m, .waiting) }
  have hx : ((s.setFiber c.caller x).setActive x.cpu none).fiber c.caller = x := Function.update_self _ _ _
  have hold : ∀ g, s.active (s.fiber c.caller).cpu = some g → g = c.caller := by
    intro g hg
    rw [hc, Option.some.injEq] at hg
    exact hg.symm
  have hnew : ∀ g, (none : Option FiberId) = some g → g = c.caller := fun g hg => absurd hg (by simp)
  refine hi.advance m _ _ hi.fault (hi.active_switch (x := x) rfl hnew)
    (hi.fibers (fun g hgf => Function.update_of_ne hgf _ _) (control_switch (x := x) rfl hold hnew)
      (Nat.le_refl _) (Nat.le_refl _) ?_) hi.inbox (same_nmsgs hm) (fun k hk => ?_)
    (hp.atCaller _ (x := x) rfl rfl rfl rfl hp.trace hp.heap hp.inbox rfl (fun _ => id)
      (fun _ => ⟨.waiting, rfl⟩) (fun pc hpc => ?_) hp.reply)
  · constructor
    · exact fun hle => absurd (hf.lt_of_control hc) (Nat.not_lt.mpr hle)
    · rw [State.hasControl, hx]
      show Status.suspended = .active ↔ Function.update s.active x.cpu none x.cpu = some c.caller
      rw [Function.update_self]
      simp
    · rw [hx]
      exact ⟨fun _ => rfl, fun _ => rfl⟩
    · rw [hx]
      exact fun _ => ⟨m, rfl⟩
    · rw [hx]
      intro k pc hk hpc
      exact absurd (Prod.mk.inj (Option.some.inj hk)).2.symm hpc
    · rw [hx]
      intro k pc hk
      exact (Prod.mk.inj (Option.some.inj hk)).1 ▸ hm
    · rw [hx]
      exact hf.handler
  · refine .of_fiber (x := x) rfl rfl (fun _ => Iff.rfl) rfl rfl rfl (fun _ => Iff.rfl) (fun pc => ?_)
      fun pc hpc => ?_
    · rw [hcall]
      simp [x, hk.symm]
    · rw [hcall, Option.some.injEq, Prod.mk.injEq] at hpc
      exact absurd hpc.1.symm hk
  · rw [← (Prod.mk.inj (Option.some.inj hpc)).2]
    exact hst

theorem inv_return {n : Nat} {s t : State ε ρ} {f : FiberId} (hi : Inv s)
    (h : step n s (.return f) = some t) : Inv t := by
  simp only [Call.step] at h
  split at h <;> simp only [Option.ite_none_right_eq_some, reduceCtorEq] at h
  rename_i m hcall
  obtain ⟨hc, h⟩ := h
  have hl := (hi.fiber f).not_linked hc
  have hm := (hi.fiber f).call m _ hcall
  obtain ⟨c, st, hp⟩ := hi.message m hm
  obtain ⟨rfl, hw, g, out, rfl⟩ := hp.of_unlinked hcall hl
  have hheap := hp.heap
  rw [if_neg (by rw [hl]; exact Bool.false_ne_true), hheap] at h
  obtain rfl := Option.some.inj h
  refine hi.act (x := { s.fiber c.caller with call := none }) hc hi.fault rfl rfl rfl rfl rfl rfl rfl hm
    hi.inbox (fun k hk => ?_) (fun k hk => Function.update_of_ne hk _ _) (fun _ _ _ => Iff.rfl)
    (fun _ _ _ => Iff.rfl) (fun k hk pc => ?_)
    (hp.atCaller (.closed g out) rfl rfl rfl rfl ?_ (Function.update_self _ _ _) hp.inbox rfl
      (fun _ => id) False.elim (fun pc hpc => absurd hpc (by simp)) fun g out hst => by simp at hst)
  · exact (Function.update_of_ne hk _ _).trans (Function.update_of_ne hk _ _)
  · rw [hcall]
    simp [hk.symm]
  · rw [State.delete, log_trace]
    show (State.log _ m _).trace m ++ _ = _
    rw [log_trace]
    show s.trace m ++ _ ++ _ = _
    rw [hp.trace]
    simp [Info.trace, hw]

theorem inv_receiveAll {n : Nat} {s t : State ε ρ} {r : Cpu} (hi : Inv s)
    (h : step n s (.receiveAll r) = some t) : Inv t := by
  simp only [Call.step, Option.ite_none_right_eq_some, Option.some.injEq] at h
  obtain ⟨-, rfl⟩ := h
  exact hi.quiet hi.fault hi.active (fun g => (hi.fiber g).congr rfl rfl rfl rfl) hi.inbox rfl fun k =>
    ⟨rfl, rfl, fun _ => Iff.rfl, Nat.le_refl _, fun _ _ => rfl, fun _ _ => Iff.rfl, fun _ _ => Iff.rfl,
      fun _ _ _ => rfl⟩

theorem inv_processEnter {n : Nat} {s t : State ε ρ} {f : FiberId} (hi : Inv s)
    (h : step n s (.processEnter f) = some t) : Inv t := by
  simp only [Call.step] at h
  split at h <;> simp only [Option.ite_none_right_eq_some, reduceCtorEq] at h
  rename_i m hh
  obtain ⟨hc, h⟩ := h
  have hm := (hi.fiber f).handler m _ hh
  obtain ⟨c, st, hp⟩ := hi.message m hm
  obtain ⟨hat, hcpu⟩ := hp.of_handler hh (by decide)
  obtain rfl : st = .spawned f := by cases st <;> simp_all [Stage.handlerAt]
  have hheap := hp.heap
  simp only [Info.heapAt] at hheap
  simp only [hheap, Option.isNone_some, Bool.false_eq_true, if_false, Option.some.injEq] at h
  subst h
  refine hi.act (x := { s.fiber f with handler := some (m, .inFn) }) hc hi.fault rfl rfl rfl rfl rfl rfl rfl
    hm hi.inbox (fun k hk => Function.update_of_ne hk _ _) (fun _ _ => rfl) (fun _ _ _ => Iff.rfl)
    (fun k hk pc => ?_) (fun _ _ _ => Iff.rfl)
    (hp.handle (.entered f) _ hat rfl rfl ?_ hp.heap hp.inbox (.inl rfl) id (fun _ _ => id)
      fun g out hst => by simp at hst)
  · rw [hh]
    simp [hk.symm]
  · rw [log_trace]
    show s.trace m ++ _ = _
    rw [hp.trace, hcpu]
    rfl

theorem inv_processExit {n : Nat} {s t : State ε ρ} {f : FiberId} {out : Except ε ρ} (hi : Inv s)
    (h : step n s (.processExit f out) = some t) : Inv t := by
  simp only [Call.step] at h
  split at h <;> simp only [Option.ite_none_right_eq_some, reduceCtorEq] at h
  rename_i m hh
  obtain ⟨⟨hc, -⟩, h⟩ := h
  have hm := (hi.fiber f).handler m _ hh
  obtain ⟨c, st, hp⟩ := hi.message m hm
  obtain ⟨hat, -⟩ := hp.of_handler hh (by decide)
  obtain rfl : st = .entered f := by cases st <;> simp_all [Stage.handlerAt]
  have hheap := hp.heap
  simp only [Info.heapAt] at hheap
  simp only [hheap, Option.ite_none_left_eq_some, Option.some.injEq] at h
  obtain ⟨-, rfl⟩ := h
  refine hi.act (x := { s.fiber f with handler := some (m, .processed) }) hc hi.fault rfl rfl rfl rfl rfl rfl
    rfl hm hi.inbox (fun k hk => Function.update_of_ne hk _ _) (fun k hk => Function.update_of_ne hk _ _)
    (fun _ _ _ => Iff.rfl) (fun k hk pc => ?_) (fun _ _ _ => Iff.rfl)
    (hp.handle (.processed f out) _ hat rfl rfl ?_ (Function.update_self _ _ _) hp.inbox (.inl rfl) id
      (fun _ _ => id) fun g out hst => by simp at hst)
  · rw [hh]
    simp [hk.symm]
  · rw [log_trace]
    show s.trace m ++ _ = _
    rw [hp.trace]
    rfl

theorem inv_deliver_spawn {s : State ε ρ} {r : Cpu} {k : Nat} {m : MsgId} {rest : List MsgId}
    {c : Info} (hi : Inv s) (hin : s.inbox r = m :: rest) (hp : Placed s m c .sent)
    (hr : r = c.target) :
    Inv ({ s with inbox := Function.update s.inbox r rest
                  batch := Function.update s.batch r k }.spawn r (some (m, .start))) := by
  have hm : m < s.nmsgs := (hi.inbox r).2 m (by simp [hin])
  obtain ⟨hnocall, hnohandler, -⟩ := (hi.fiber s.nfibers).fresh (Nat.le_refl _)
  have honly : ∀ q, m ∈ s.inbox q → q = r := by
    intro q hq
    rw [hp.inbox q, Info.inboxAt, Option.some.injEq] at hq
    rw [hr, hq]
  have hx : Function.update s.fiber s.nfibers ⟨r, .ready, false, some (m, .start), none⟩ s.nfibers =
      ⟨r, .ready, false, some (m, .start), none⟩ := Function.update_self _ _ _
  have hne : c.caller ≠ s.nfibers := Nat.ne_of_lt hp.caller.1
  refine hi.advance m c (.spawned s.nfibers) hi.fault
    (hi.active_of rfl fun g hg => congrArg Fiber.cpu (Function.update_of_ne (Nat.ne_of_lt hg) _ _))
    (fun g => (hi.fibers_spawn (r := r) (some (m, .start)) (fun k pc hk => ?_) g).congr
      rfl rfl rfl rfl)
    (hi.inbox_take hin) (same_nmsgs hm)
    (fun k hk => .of_spawn rfl rfl (mem_take hk hin) rfl rfl ⟨hnocall, hnohandler⟩ fun pc => ?_) ?_
  · exact (Prod.mk.inj (Option.some.inj hk)).1 ▸ hm
  · simp [hk.symm]
  · refine ⟨hp.trace, hp.heap, fun q => ?_, fun g pc hg => ?_, fun g pc hg => ?_, fun hw => ?_,
      fun g pc hg => ?_, ⟨Nat.lt_succ_of_lt hp.caller.1, ?_⟩, fun g out hst => by simp at hst⟩
    · exact ⟨fun hq => absurd hq (not_mem_take hin (hi.inbox r).1 honly q), fun hq => absurd hq (by
        simp [Info.inboxAt])⟩
    · obtain ⟨rfl, rfl⟩ := Prod.mk.inj (Option.some.inj hg)
      exact ⟨Nat.lt_succ_self _, congrArg Fiber.handler hx, (congrArg Fiber.cpu hx).trans hr⟩
    · change (Function.update s.fiber s.nfibers _ g).handler = _ at hg
      by_cases hgf : g = s.nfibers
      · rw [hgf, hx] at hg
        obtain ⟨-, rfl⟩ := Prod.mk.inj (Option.some.inj hg)
        exact .inr (hgf ▸ rfl)
      · rw [Function.update_of_ne hgf] at hg
        rcases hp.handlerOnly g pc hg with ⟨_, hdone⟩ | hat
        · exact hdone.elim
        · exact absurd hat (by simp [Stage.handlerAt])
    · show ∃ pc, (Function.update s.fiber s.nfibers _ c.caller).call = _
      rw [Function.update_of_ne hne]
      exact hp.call hw
    · change (Function.update s.fiber s.nfibers _ g).call = _ at hg
      show g = c.caller ∧ Stage.callAt c _ pc (Function.update s.fiber s.nfibers _ g).linked
      have hgf : g ≠ s.nfibers := by
        rintro rfl
        rw [hx] at hg
        exact absurd hg (by simp)
      rw [Function.update_of_ne hgf] at hg ⊢
      exact hp.callOnly g pc hg
    · show (Function.update s.fiber s.nfibers _ c.caller).cpu = _
      rw [Function.update_of_ne hne]
      exact hp.caller.2

/-- When the event loop of the origin runs, the caller of a replied call waits: it has passed
`Scheduler::suspend`, since it kept control from `submit_to` to there. -/
theorem Placed.caller_waits {s : State ε ρ} {m : MsgId} {c : Info} {g : FiberId}
    {out : Except ε ρ} (hi : Inv s) (hp : Placed s m c (.replied g out))
    (hidle : s.active c.origin = none) :
    (s.fiber c.caller).call = some (m, .waiting) ∧ (s.fiber c.caller).linked = true := by
  obtain ⟨pc, hpc⟩ := hp.call (hp.reply g out (.inl rfl))
  obtain ⟨-, hw, hcase⟩ := hp.callOnly _ _ hpc
  rcases hcase with rfl | ⟨rfl, hl⟩
  · have hc := (hi.fiber c.caller).issuing m _ hpc (by decide)
    rw [State.hasControl, hp.caller.2, hidle] at hc
    cases hc
  · exact ⟨hpc, hl⟩

theorem inv_deliver_finish {s : State ε ρ} {r : Cpu} {k : Nat} {m : MsgId} {rest : List MsgId}
    {c : Info} {g : FiberId} {out : Except ε ρ} (hi : Inv s) (hin : s.inbox r = m :: rest)
    (hp : Placed s m c (.replied g out)) (hr : r = c.origin) (hidle : s.active r = none) :
    Inv ({ s with inbox := Function.update s.inbox r rest
                  batch := Function.update s.batch r k }.finish m (c.message.process out)) := by
  have hw := hp.reply g out (.inl rfl)
  obtain ⟨hcall, hl⟩ := hp.caller_waits hi (hr ▸ hidle)
  simp only [State.finish, Message.process_oneWay, Info.message_oneWay, hw, Bool.false_eq_true,
    if_false, Message.process_fiberContext, c.message_fiberContext hw, State.resume, hl, if_true]
  have hf := hi.fiber c.caller
  have hm : m < s.nmsgs := (hi.inbox r).2 m (by simp [hin])
  have hsuspended := hf.linked.mp hl
  have honly : ∀ q, m ∈ s.inbox q → q = r := by
    intro q hq
    rw [hp.inbox q, Info.inboxAt, Option.some.injEq] at hq
    rw [hr, hq]
  let x : Fiber := { s.fiber c.caller with status := .ready, linked := false }
  have hx : Function.update s.fiber c.caller x c.caller = x := Function.update_self _ _ _
  have hcpu : ∀ h, (Function.update s.fiber c.caller x h).cpu = (s.fiber h).cpu := by
    intro h
    rw [Function.update_apply]
    split_ifs with hh
    · rw [hh]
    · rfl
  have hcontrol : ¬ s.hasControl c.caller := by
    intro hc
    have ha := hf.active.mpr hc
    rw [hsuspended] at ha
    exact absurd ha (by decide)
  refine hi.advance m _ _ hi.fault (hi.active_of rfl fun h _ => hcpu h)
    (hi.fibers (f := c.caller) (fun h hh => Function.update_of_ne hh _ _) (fun h _ => ?_) (Nat.le_refl _)
      (Nat.le_refl _) ?_) (hi.inbox_take hin) (same_nmsgs hm) (fun k hk => ?_)
    (hp.atCaller (.resumed g out) (x := x) rfl rfl rfl rfl ?_ hp.heap (fun q => ?_) rfl (fun _ => id)
      (fun _ => ⟨.waiting, hcall⟩) (fun pc hpc => ?_) fun _ _ _ => hw)
  · show s.active (Function.update s.fiber c.caller x h).cpu = some h ↔ _
    rw [hcpu h]
  · constructor
    · exact fun hle => absurd hp.caller.1 (Nat.not_lt.mpr hle)
    · show (Function.update s.fiber c.caller x c.caller).status = .active ↔
        s.active (Function.update s.fiber c.caller x c.caller).cpu = some c.caller
      rw [hx]
      exact ⟨fun h => absurd h (by simp [x]), fun h => absurd h hcontrol⟩
    · show (Function.update s.fiber c.caller x c.caller).linked = true ↔
        (Function.update s.fiber c.caller x c.caller).status = .suspended
      rw [hx]
      simp [x]
    · show (Function.update s.fiber c.caller x c.caller).linked = true → _
      rw [hx]
      exact fun h => absurd h Bool.false_ne_true
    · show ∀ k pc, (Function.update s.fiber c.caller x c.caller).call = some (k, pc) → _
      rw [hx]
      intro k pc hk hpc
      exact absurd ((Prod.mk.inj (Option.some.inj (hcall.symm.trans hk))).2.symm) hpc
    · show ∀ k pc, (Function.update s.fiber c.caller x c.caller).call = some (k, pc) → _
      rw [hx]
      exact hf.call
    · show ∀ k pc, (Function.update s.fiber c.caller x c.caller).handler = some (k, pc) → _
      rw [hx]
      exact hf.handler
  · refine .of_fiber (x := x) (Function.update_of_ne hk _ _) rfl (mem_take hk hin) rfl rfl rfl
      (fun _ => Iff.rfl) (fun _ => Iff.rfl) fun pc hpc => ?_
    exact absurd (Prod.mk.inj (Option.some.inj (hcall.symm.trans hpc))).1.symm hk
  · rw [log_trace]
    show s.trace m ++ _ = _
    rw [hp.trace]
    rfl
  · exact ⟨fun hq => absurd hq (not_mem_take hin (hi.inbox r).1 honly q), fun hq => absurd hq (by
      simp [Info.inboxAt])⟩
  · exact ⟨hw, (Prod.mk.inj (Option.some.inj (hcall.symm.trans hpc))).2.symm, rfl⟩

theorem inv_deliver {n : Nat} {s t : State ε ρ} {r : Cpu} (hi : Inv s)
    (h : step n s (.deliver r) = some t) : Inv t := by
  simp only [Call.step] at h
  split at h <;> simp only [Option.ite_none_right_eq_some, Option.some.injEq, reduceCtorEq] at h
  rename_i k m rest hb hin
  obtain ⟨hidle, rfl⟩ := h
  obtain ⟨c, st, hp⟩ := hi.message m ((hi.inbox r).2 m (by simp [hin]))
  have hheap := hp.heap
  rcases hp.of_inbox (r := r) (by simp [hin]) with ⟨rfl, hr⟩ | ⟨g, out, rfl, hr⟩
  · simp only [State.processFn, hheap, Info.heapAt, Info.message_isReturn, Bool.false_eq_true,
      if_false]
    exact inv_deliver_spawn hi hin hp hr
  · simp only [State.processFn, hheap, Info.heapAt, Message.process_isReturn, if_true]
    exact inv_deliver_finish hi hin hp hr hidle

theorem inv_complete_reply {s : State ε ρ} {f : FiberId} {m : MsgId} {c : Info}
    {out : Except ε ρ} (hi : Inv s) (hc : s.hasControl f) (hh : (s.fiber f).handler = some (m, .processed))
    (hp : Placed s m c (.processed f out)) (hw : c.oneWay = false) :
    Inv (((s.setFiber f { s.fiber f with handler := some (m, .finished) }).submitTo c.origin m).log m
      [.submitted c.origin]) := by
  have hm := (hi.fiber f).handler m _ hh
  have hnot : ∀ r, m ∉ s.inbox r := fun r => by simp [hp.inbox, Info.inboxAt]
  refine hi.act (x := { s.fiber f with handler := some (m, .finished) }) hc hi.fault rfl rfl rfl rfl rfl rfl
    rfl hm (hi.inbox_submitTo hm (hnot _)) (fun k hk => Function.update_of_ne hk _ _) (fun _ _ => rfl)
    (fun k hk => mem_submitTo hk _) (fun k hk pc => ?_) (fun _ _ _ => Iff.rfl)
    (hp.handle (.replied f out) .finished rfl rfl rfl ?_ hp.heap
      (mem_submitTo_self hnot c.origin) (.inr ⟨rfl, rfl, rfl⟩) id (fun _ _ => id) fun _ _ _ => hw)
  · rw [hh]
    simp [hk.symm]
  · rw [log_trace]
    show s.trace m ++ _ = _
    rw [hp.trace]
    rfl

theorem inv_complete_oneWay {s : State ε ρ} {f : FiberId} {m : MsgId} {c : Info}
    {out : Except ε ρ} (hi : Inv s) (hc : s.hasControl f) (hh : (s.fiber f).handler = some (m, .processed))
    (hp : Placed s m c (.processed f out)) (hw : c.oneWay = true) :
    Inv ((s.setFiber f { s.fiber f with handler := some (m, .finished) }).delete m) := by
  have hm := (hi.fiber f).handler m _ hh
  refine hi.act (x := { s.fiber f with handler := some (m, .finished) }) hc hi.fault rfl rfl rfl rfl rfl rfl
    rfl hm hi.inbox (fun k hk => Function.update_of_ne hk _ _) (fun k hk => Function.update_of_ne hk _ _)
    (fun _ _ _ => Iff.rfl) (fun k hk pc => ?_) (fun _ _ _ => Iff.rfl)
    (hp.handle (.closed f out) .finished rfl rfl rfl ?_ (Function.update_self _ _ _)
      hp.inbox (.inr ⟨rfl, rfl, rfl⟩) False.elim (fun pc linked hcall => ?_)
      fun g out hst => by simp at hst)
  · rw [hh]
    simp [hk.symm]
  · rw [State.delete, log_trace]
    show s.trace m ++ _ = _
    rw [hp.trace]
    simp [Info.trace, hw]
  · exact absurd (hw.symm.trans hcall.1) (by simp)

theorem inv_complete {n : Nat} {s t : State ε ρ} {f : FiberId} (hi : Inv s)
    (h : step n s (.complete f) = some t) : Inv t := by
  simp only [Call.step] at h
  split at h <;> simp only [Option.ite_none_right_eq_some, reduceCtorEq] at h
  rename_i m hh
  obtain ⟨hc, h⟩ := h
  obtain ⟨c, st, hp⟩ := hi.message m ((hi.fiber f).handler m _ hh)
  obtain ⟨hat, -⟩ := hp.of_handler hh (by decide)
  obtain ⟨out, rfl⟩ : ∃ out, st = .processed f out := by
    cases st <;> simp_all [Stage.handlerAt]
  have hheap := hp.heap
  simp only [Info.heapAt] at hheap
  simp only [hheap] at h
  cases hw : c.oneWay with
  | false =>
    simp only [Message.process_oneWay, Message.process_cpu, Info.message_oneWay, Info.message_cpu,
      hw, Bool.false_eq_true, if_false, Option.some.injEq] at h
    subst h
    exact inv_complete_reply hi hc hh hp hw
  | true =>
    simp only [State.finish, Message.process_oneWay, Info.message_oneWay, hw, if_true,
      Option.some.injEq] at h
    subst h
    exact inv_complete_oneWay hi hc hh hp hw

theorem inv_step {n : Nat} {s t : State ε ρ} {a : Action ε ρ} (hi : Inv s)
    (h : step n s a = some t) : Inv t := by
  cases a with
  | spawn r => exact inv_spawn hi h
  | schedule f => exact inv_schedule hi h
  | yield f => exact inv_yield hi h
  | runAt f target =>
    simp only [Call.step, Option.ite_none_right_eq_some, Option.some.injEq] at h
    obtain ⟨⟨hc, hu, -⟩, rfl⟩ := h
    exact inv_make hi hc hu
  | runAtAsync f target =>
    simp only [Call.step, Option.ite_none_right_eq_some, Option.some.injEq] at h
    obtain ⟨⟨hc, hu, -⟩, rfl⟩ := h
    exact inv_make hi hc hu
  | submit f => exact inv_submit hi h
  | suspend f => exact inv_suspend hi h
  | «return» f => exact inv_return hi h
  | receiveAll r => exact inv_receiveAll hi h
  | deliver r => exact inv_deliver hi h
  | processEnter f => exact inv_processEnter hi h
  | processExit f out => exact inv_processExit hi h
  | complete f => exact inv_complete hi h
  | terminate f => exact inv_terminate hi h

theorem inv_reachable {n : Nat} {s : State ε ρ} (h : (machine n).Reachable s) : Inv s :=
  Machine.Reachable.invariant (P := Inv) inv_initial (fun _ _ _ hi hs => inv_step hi hs) h

/-- The cross-reactor call protocol. No assertion fails and no message is read after its deletion.
The history of every message is a prefix of the fixed lifecycle of its call; a caller that has left
`run_at`, and a handler that has left the closure of a one-way message, leave the whole lifecycle
behind. -/
theorem call_protocol {n : Nat} {s : State ε ρ} (h : (machine n).Reachable s) :
    s.fault = none ∧ ∀ m, ∃ (c : Info) (g : FiberId) (out : Except ε ρ),
      s.trace m <+: c.lifecycle g out ∧
      (m < s.nmsgs → c.oneWay = false →
        (∃ pc, (s.fiber c.caller).call = some (m, pc)) ∨ s.trace m = c.lifecycle g out) ∧
      (c.oneWay = true → ∀ f, (s.fiber f).handler = some (m, .finished) →
        f = g ∧ s.trace m = c.lifecycle g out) := by
  have hi := inv_reachable h
  refine ⟨hi.fault, fun m => ?_⟩
  by_cases hm : m < s.nmsgs
  · obtain ⟨c, st, hp⟩ := hi.message m hm
    obtain ⟨g, out, hpre, hclosed⟩ := c.trace_prefix st hp.reply
    refine ⟨c, g, out, hp.trace ▸ hpre, fun _ hw => ?_, fun hw f hf => ?_⟩
    · cases st with
      | closed g' out' => exact .inr (hp.trace.trans (hclosed g' out' rfl).2)
      | _ => exact .inl (hp.call (by simp [Stage.inCall, hw]))
    · rcases hp.handlerOnly f _ hf with ⟨-, hd⟩ | hat
      · cases st with
        | closed g' out' =>
          obtain ⟨rfl, heq⟩ := hclosed g' out' rfl
          exact ⟨hd.symm, hp.trace.trans heq⟩
        | replied g' out' => simp [hp.reply g' out' (.inl rfl)] at hw
        | resumed g' out' => simp [hp.reply g' out' (.inr rfl)] at hw
        | _ => exact hd.elim
      · cases st <;> simp [Stage.handlerAt] at hat
  · refine ⟨⟨0, 0, 0, false⟩, 0, .ok default, ?_, fun hlt => absurd hlt hm, fun hw => by simp at hw⟩
    rw [hi.unused m (Nat.le_of_not_lt hm)]
    exact List.nil_prefix

/-- Fiber 0 of reactor 0 calls a function on reactor 1 that returns 7. -/
def remoteCall : List (Action Unit Nat) :=
  [.spawn 0, .schedule 0, .runAt 0 1, .submit 0, .suspend 0, .receiveAll 1, .deliver 1, .schedule 1,
    .processEnter 1, .processExit 1 (.ok 7), .complete 1, .receiveAll 0, .deliver 0, .schedule 0,
    .return 0]

theorem call_protocol_remoteCall :
    ∃ s : State Unit Nat, (machine 2).exec initial remoteCall = some s ∧
      s.trace 0 = Info.lifecycle ⟨0, 0, 1, false⟩ 1 (.ok 7) ∧
      s.fault = none ∧ ∀ m, ∃ (c : Info) (g : FiberId) (out : Except Unit Nat),
        s.trace m <+: c.lifecycle g out ∧
        (m < s.nmsgs → c.oneWay = false →
          (∃ pc, (s.fiber c.caller).call = some (m, pc)) ∨ s.trace m = c.lifecycle g out) ∧
        (c.oneWay = true → ∀ f, (s.fiber f).handler = some (m, .finished) →
          f = g ∧ s.trace m = c.lifecycle g out) := by
  obtain ⟨s, hs⟩ : ∃ s, (machine 2).exec initial remoteCall = some s := ⟨_, rfl⟩
  refine ⟨s, hs, ?_, call_protocol (Machine.reachable_of_exec hs)⟩
  obtain rfl := Option.some.inj hs
  rfl

end Dumbo.Reactor.Call
