import Dumbo.Reactor.CallWork

/-!
# Every call returns

When no step of the protocol is left, every call has returned. The fibers may call each other's reactors in any
way: a fiber that waits inside the function of a message waits for a message that was made later, so fibers
never wait for each other in a circle.
-/

namespace Dumbo.Reactor.Call

open Transition

variable {ε ρ : Type}

/-- Nothing is under way. -/
structure Settled (s : State ε ρ) : Prop where
  message : ∀ m < s.nmsgs, s.heap m = none ∧ ∃ (c : Info) (g : FiberId) (out : Except ε ρ),
    s.trace m = c.lifecycle g out
  inbox : ∀ r, s.inbox r = []
  fiber : ∀ f < s.nfibers, (s.fiber f).status = .terminated

variable [Inhabited ρ] {n : Nat} {s t : State ε ρ} {f : FiberId} {m : MsgId} {r : Cpu}

/-- No step of the protocol is enabled. -/
def Stuck (n : Nat) (s : State ε ρ) : Prop := ∀ a, handles s a = true → step n s a = none

theorem Stuck.no_control (h : Stuck n s) : ¬ s.hasControl f := by
  intro hc
  cases hcall : (s.fiber f).call with
  | none =>
    cases hhandler : (s.fiber f).handler with
    | none =>
      have hend : (s.fiber f).atEnd = true := by simp [Fiber.atEnd, hcall, hhandler]
      have hnone := h (.terminate f) rfl
      simp [Call.step, hc, hend] at hnone
    | some p =>
      obtain ⟨m, pc⟩ := p
      cases pc with
      | start =>
        have hnone := h (.processEnter f) rfl
        simp only [Call.step, hhandler, if_pos hc] at hnone
        split at hnone <;> cases hnone
      | inFn =>
        have hnone := h (.processExit f (.ok default)) rfl
        simp only [Call.step, hhandler, if_pos (And.intro hc hcall)] at hnone
        split at hnone
        · cases hnone
        · simp [Except.isOk, Except.toBool] at hnone
      | processed =>
        have hnone := h (.complete f) rfl
        simp only [Call.step, hhandler, if_pos hc] at hnone
        split at hnone
        · cases hnone
        · split at hnone <;> cases hnone
      | finished =>
        have hend : (s.fiber f).atEnd = true := by simp [Fiber.atEnd, hcall, hhandler]
        have hnone := h (.terminate f) rfl
        simp [Call.step, hc, hend] at hnone
  | some p =>
    obtain ⟨m, pc⟩ := p
    cases pc with
    | made target w =>
      have hnone := h (.submit f) rfl
      simp [Call.step, hcall, hc] at hnone
    | sent =>
      have hnone := h (.suspend f) rfl
      simp [Call.step, hcall, hc] at hnone
    | waiting =>
      have hnone := h (.return f) rfl
      simp only [Call.step, hcall, if_pos hc] at hnone
      split at hnone
      · cases hnone
      · split at hnone <;> cases hnone

theorem Stuck.idle (h : Stuck n s) (hi : Inv s) (r : Cpu) : s.active r = none := by
  cases hr : s.active r with
  | none => rfl
  | some f =>
    have hc : s.hasControl f := by rw [State.hasControl, hi.active r f hr, hr]
    exact absurd hc h.no_control

theorem Stuck.inbox (h : Stuck n s) (hi : Inv s) (r : Cpu) : s.inbox r = [] := by
  have hidle := h.idle hi r
  cases hin : s.inbox r with
  | nil => rfl
  | cons m rest =>
    cases hbatch : s.batch r with
    | zero =>
      have hnone := h (.receiveAll r) (by simp [handles, hin])
      simp [Call.step, hidle, hbatch] at hnone
    | succ k =>
      have hnone := h (.deliver r) rfl
      simp [Call.step, hidle, hbatch, hin] at hnone

theorem Stuck.status (h : Stuck n s) (hi : Inv s) (hb : Bounded n s) (hf : f < s.nfibers) :
    (s.fiber f).status = .terminated ∨ (s.fiber f).linked = true := by
  cases hstatus : (s.fiber f).status with
  | terminated => exact .inl rfl
  | suspended => exact .inr ((hi.fiber f).linked.mpr hstatus)
  | active => exact absurd ((hi.fiber f).active.mp hstatus) h.no_control
  | ready =>
    have hbatch : s.batch (s.fiber f).cpu = 0 := by
      have hle := hb.batch (s.fiber f).cpu
      rw [h.inbox hi] at hle
      exact Nat.le_zero.mp hle
    have hnone := h (.schedule f) rfl
    simp [Call.step, hf, hstatus, h.idle hi, hbatch] at hnone

/-- A fiber that handles a message has ended, or it waits itself for one that was made later. -/
theorem Stuck.handler_waits (h : Stuck n s) (hi : Inv s) (hb : Bounded n s) (hf : f < s.nfibers)
    {pc : HandlerPc} (hh : (s.fiber f).handler = some (m, pc)) (hpc : pc ≠ .finished) :
    ∃ k, m < k ∧ (s.fiber f).call = some (k, .waiting) := by
  rcases h.status hi hb hf with hend | hlinked
  · exact absurd ((hb.fiber f hf).finished hend hh) hpc
  · obtain ⟨k, hk⟩ := (hi.fiber f).waiting hlinked
    exact ⟨k, (hb.fiber f hf).order m pc k _ hh hk, hk⟩

/-- No fiber waits: the last message that one waits for would have a handler that waits for a later one. -/
theorem Stuck.no_waits (h : Stuck n s) (hi : Inv s) (hb : Bounded n s) :
    (s.fiber f).call ≠ some (m, .waiting) := by
  induction hleft : s.nmsgs - m using Nat.strong_induction_on generalizing f m with
  | _ left ih =>
    intro hcall
    have hm := (hi.fiber f).call m _ hcall
    have hf : f < s.nfibers := by
      by_contra hge
      rw [((hi.fiber f).fresh (Nat.le_of_not_lt hge)).1] at hcall
      cases hcall
    have hlinked : (s.fiber f).linked = true := by
      apply (h.status hi hb hf).resolve_left
      intro hend
      cases ((hb.fiber f hf).call_none hend).symm.trans hcall
    obtain ⟨c, st, hp⟩ := hi.message m hm
    have hat := (hp.callOnly f _ hcall).2
    rw [hlinked] at hat
    have hhandled : ∀ g pc, st.handlerAt = some (g, pc) → pc ≠ .finished → False := by
      intro g pc hg hpc
      obtain ⟨hlt, hh, -⟩ := hp.handler g pc hg
      obtain ⟨k, hmk, hk⟩ := h.handler_waits hi hb hlt hh hpc
      have hlt' : s.nmsgs - k < s.nmsgs - m := Nat.sub_lt_sub_left hm hmk
      exact ih (s.nmsgs - k) (hleft ▸ hlt') rfl hk
    have hin : ∀ q, c.inboxAt st = some q → False := by
      intro q hq
      have hmem := (hp.inbox q).mpr hq
      rw [h.inbox hi] at hmem
      cases hmem
    cases st with
    | made => cases hat
    | sent => exact hin _ rfl
    | spawned g => exact hhandled g _ rfl (by simp)
    | entered g => exact hhandled g _ rfl (by simp)
    | processed g out => exact hhandled g _ rfl (by simp)
    | replied g out => exact hin _ rfl
    | resumed g out => cases hat.2.2
    | closed g out => exact hat

theorem Stuck.settled (h : Stuck n s) (hi : Inv s) (hb : Bounded n s) : Settled s := by
  have hended : ∀ f < s.nfibers, (s.fiber f).status = .terminated := by
    intro f hf
    apply (h.status hi hb hf).resolve_right
    intro hlinked
    obtain ⟨m, hm⟩ := (hi.fiber f).waiting hlinked
    exact h.no_waits hi hb hm
  refine ⟨?_, h.inbox hi, hended⟩
  intro m hm
  obtain ⟨c, st, hp⟩ := hi.message m hm
  have hcall : ¬ st.inCall c := by
    intro hin
    obtain ⟨pc, hpc⟩ := hp.call hin
    cases ((hb.fiber _ hp.caller.1).call_none (hended _ hp.caller.1)).symm.trans hpc
  have hhandled : ∀ g pc, st.handlerAt = some (g, pc) → pc = .finished := by
    intro g pc hg
    obtain ⟨hlt, hh, -⟩ := hp.handler g pc hg
    exact (hb.fiber g hlt).finished (hended g hlt) hh
  have hin : ∀ q, c.inboxAt st ≠ some q := by
    intro q hq
    have hmem := (hp.inbox q).mpr hq
    rw [h.inbox hi] at hmem
    cases hmem
  cases st with
  | made => exact absurd trivial hcall
  | sent => exact absurd rfl (hin _)
  | spawned g => cases hhandled g _ rfl
  | entered g => cases hhandled g _ rfl
  | processed g out => cases hhandled g _ rfl
  | replied g out => exact absurd rfl (hin _)
  | resumed g out => exact absurd (hp.reply g out (.inr rfl)) hcall
  | closed g out =>
    refine ⟨hp.heap, c, g, out, hp.trace.trans ?_⟩
    cases hw : c.oneWay <;> simp [Info.trace, Info.lifecycle, hw]

/-- Whatever the fibers do, a run has no more steps of the protocol than the work that it began with and what
the steps of the functions cost; and where none is left, every call has returned and every message is
deleted. -/
theorem calls_return (h : (machine n).Reachable s) {as : List (Action ε ρ)}
    (hrun : (machine n).exec s as = some t) :
    (machine n).countOwn handles s as + work n t ≤ work n s + (as.map cost).sum ∧
      ((∀ a, handles t a = true → step n t a = none) → Settled t) := by
  obtain ⟨hi, hb⟩ := bounded_reachable (h.exec hrun)
  constructor
  · apply Machine.countOwn_add_le (P := fun s : State ε ρ => Inv s ∧ Bounded n s) ?_ (bounded_reachable h) hrun
    intro s a t hs hstep
    obtain ⟨hbounded, hwork⟩ := step_work hs.1 hs.2 hstep
    exact ⟨⟨inv_step hs.1 hstep, hbounded⟩, hwork⟩
  · intro hstuck
    exact Stuck.settled hstuck hi hb

theorem stuck_of_work (h : (machine n).Reachable s) (hwork : work n s = 0) : Stuck n s := by
  obtain ⟨hi, hb⟩ := bounded_reachable h
  intro a ha
  by_contra hsome
  obtain ⟨u, hu⟩ := Option.ne_none_iff_exists'.mp hsome
  obtain ⟨-, hle⟩ := step_work hi hb hu
  have hcost : cost a = 0 := by
    cases a with
    | spawn r | yield f | runAt f target | runAtAsync f target => cases ha
    | _ => rfl
  rw [ha, hwork, hcost, Bool.toNat_true] at hle
  omega

/-- Fiber 0 of reactor 0 calls reactor 1, and the function that it calls there calls reactor 0. -/
def nestedCall : List (Action Unit Nat) :=
  [.spawn 0, .schedule 0, .runAt 0 1, .submit 0, .suspend 0, .receiveAll 1, .deliver 1, .schedule 1,
    .processEnter 1, .runAt 1 0, .submit 1, .suspend 1, .receiveAll 0, .deliver 0, .schedule 2,
    .processEnter 2, .processExit 2 (.ok 3), .complete 2, .terminate 2, .receiveAll 1, .deliver 1,
    .schedule 1, .return 1, .processExit 1 (.ok 7), .complete 1, .terminate 1, .receiveAll 0, .deliver 0,
    .schedule 0, .return 0, .terminate 0]

theorem calls_return_nested : ∃ t : State Unit Nat, (machine 2).exec initial nestedCall = some t ∧
    t.nmsgs = 2 ∧ (machine 2).countOwn handles initial nestedCall ≤ 72 ∧ Settled t := by
  obtain ⟨t, ht, hnmsgs, hwork⟩ : ∃ t : State Unit Nat, (machine 2).exec initial nestedCall = some t ∧
      t.nmsgs = 2 ∧ work 2 t = 0 := ⟨_, rfl, rfl, rfl⟩
  have hreach : (machine 2).Reachable t := Machine.reachable_of_exec ht
  obtain ⟨hcount, hsettled⟩ := calls_return .start ht
  have hcost : work 2 (initial : State Unit Nat) + (nestedCall.map cost).sum = 72 := rfl
  refine ⟨t, ht, hnmsgs, ?_, hsettled (stuck_of_work hreach hwork)⟩
  change (machine 2).countOwn handles initial nestedCall + work 2 t ≤ work 2 initial + (nestedCall.map cost).sum
    at hcount
  rw [hcost] at hcount
  exact Nat.le_trans (Nat.le_add_right _ _) hcount

end Dumbo.Reactor.Call
