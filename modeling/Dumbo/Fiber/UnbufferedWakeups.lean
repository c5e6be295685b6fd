import Dumbo.Fiber.UnbufferedRendezvous

/-!
# Waiting for an unbuffered channel

While no wake-up is dropped, a woken producer covers the producers that wait for the free slot, and a
woken consumer the consumers that wait for the value in it.
-/

namespace Dumbo.Fiber.UnbufferedChannel

open Transition

variable {F α : Type*}

namespace State

/-- What there is to do for the fibers of a side. -/
def load (s : State F α) : Side → Nat
  | .producers => if s.slot.isNone then 1 else 0
  | .consumers => if s.slot.isNone then 0 else 1

/-- A woken fiber of this side is not needed. -/
abbrev Spare (s : State F α) (side : Side) : Prop := s.fibers.Spare s.load side

/-- The ready fiber drops no wake-up. A producer whose deadline has passed clears the slot without
notifying, so a producer that waits must have been woken before; and a notified fiber that finds its
deadline passed must not be needed. -/
def KeepsWakeup (s : State F α) : Mode (Call α) → Prop
  | .expired c => c.offering = true →
      s.fibers.queue .producers = [] ∨ 0 < s.fibers.wakes .producers
  | .notified c => s.fibers.inTime c = true ∨ ∀ side ∈ (Wait.queue c : Option Side), s.Spare side
  | .outside | .suspended _ => True

instance (s : State F α) : ∀ mode, Decidable (s.KeepsWakeup mode)
  | .expired c => inferInstanceAs (Decidable (c.offering = true → _ ∨ _))
  | .notified c => inferInstanceAs (Decidable (_ ∨ ∀ side ∈ (Wait.queue c : Option Side), s.Spare side))
  | .outside => instDecidableTrue
  | .suspended _ => instDecidableTrue

end State

/-- The steps that drop no wake-up. -/
def KeepsWakeup (s : State F α) : Action F α → Prop
  | .resume f => s.KeepsWakeup (s.fibers.mode f)
  | .call _ _ | .iterate | .expire _ | .tick _ => True

instance (s : State F α) : ∀ a, Decidable (KeepsWakeup s a)
  | .resume f => inferInstanceAs (Decidable (s.KeepsWakeup (s.fibers.mode f)))
  | .call _ _ => instDecidableTrue
  | .iterate => instDecidableTrue
  | .expire _ => instDecidableTrue
  | .tick _ => instDecidableTrue

/-! ### The invariant -/

variable {s t : State F α} {f : F} {c : Call α}

theorem load_none (hslot : s.slot = none) : s.load .producers = 1 ∧ s.load .consumers = 0 := by
  rw [State.load, State.load, hslot]
  exact ⟨rfl, rfl⟩

theorem load_some {slot : Slot F α} (hslot : s.slot = some slot) :
    s.load .producers = 0 ∧ s.load .consumers = 1 := by
  rw [State.load, State.load, hslot]
  exact ⟨rfl, rfl⟩

variable [DecidableEq F]

structure WakeInv (s : State F α) : Prop where
  refined : Refined True s
  closed : s.closed = true → ∀ side, s.fibers.queue side = []
  covered : s.fibers.Covered s.load

namespace WakeInv

theorem queue_of_running (h : WakeInv s) (hrunning : s.fibers.running = some (f, c)) :
    (Wait.queue c : Option Side) = c.op.side :=
  if_neg (by rw [h.refined.running f c hrunning]; exact Bool.false_ne_true)

theorem ret_closed (h : WakeInv s) (hclosed : s.closed = true) {answer : Answer α}
    (hrefined : Refined True (s.ret f c answer)) : WakeInv (s.ret f c answer) :=
  ⟨hrefined, h.closed, fun side hside => absurd (h.closed hclosed side) hside⟩

theorem park (h : WakeInv s) (hrunning : s.fibers.running = some (f, c)) (hopen : ¬ s.closed = true)
    (hload : ∀ side, c.op.side = some side → s.load side = 0) : WakeInv (s.park f c) := by
  refine ⟨h.refined.park hrunning, fun hc => absurd hc hopen,
    h.refined.fibers.covered_park h.covered hrunning fun side hside => hload side ?_⟩
  rw [← h.queue_of_running hrunning]
  exact hside

theorem offer (h : WakeInv s) (hrunning : s.fibers.running = some (f, c)) (hopen : ¬ s.closed = true)
    {value : α} (hvalue : c.op.value = some value) (hslot : s.slot = none) :
    WakeInv (s.offer f c value) := by
  have hfibers := h.refined.fibers.wakeOne .consumers
  have hout := hfibers.running f c (by rw [Fibers.wakeOne_running]; exact hrunning)
  obtain ⟨hproducers, hconsumers⟩ := load_some (s := s.offer f c value) rfl
  refine ⟨h.refined.offer hrunning hvalue hslot, fun hc => absurd hc hopen,
    hfibers.covered_suspend hout (h.refined.fibers.covered_wake .consumers fun side _ => ?_) ?_⟩
  · cases side with
    | producers =>
      rw [hproducers]
      exact Nat.zero_le _
    | consumers =>
      rw [hconsumers, if_pos rfl]
      exact Nat.le_add_left _ _
  · intro side hside
    exact absurd hside (by simp [Wait.queue])

theorem pushLoop (h : WakeInv s) (hrunning : s.fibers.running = some (f, c)) {value : α}
    (hvalue : c.op.value = some value) (hside : c.op.side = some .producers) :
    WakeInv (s.pushLoop f c value) := by
  have hrefined := h.refined.pushLoop hrunning hvalue
  rw [State.pushLoop] at hrefined ⊢
  by_cases hclosed : s.closed = true
  · rw [if_pos hclosed] at hrefined ⊢
    exact h.ret_closed hclosed hrefined
  · rw [if_neg hclosed]
    cases hslot : s.slot with
    | none => exact h.offer hrunning hclosed hvalue hslot
    | some slot =>
      simp only [if_neg hclosed, Option.isNone_some, Bool.false_eq_true, if_false]
      refine h.park hrunning hclosed fun side hs => ?_
      rw [hside, Option.some.injEq] at hs
      rw [← hs]
      exact (load_some hslot).1

theorem consume (h : WakeInv s) (hrunning : s.fibers.running = some (f, c))
    (hvalue : c.op.value = none) {slot : Slot F α} (hslot : s.slot = some slot) :
    WakeInv ((s.consume slot).ret f c (.value slot.value slot.id)) := by
  have hwoken := h.refined.fibers.wakeOne .producers
  have howner := h.refined.owner_waiting hslot
  rw [← waiting_wakeOne h.refined.fibers .producers] at howner
  obtain ⟨d, hnotify, hqueue, hnot⟩ := notify_of_offering hwoken howner
  obtain ⟨hproducers, hconsumers⟩ :=
    load_none (s := (s.consume slot).ret f c (.value slot.value slot.id)) rfl
  have hcovered : (s.fibers.wakeOne .producers).finish.Covered
      ((s.consume slot).ret f c (.value slot.value slot.id)).load := by
    refine h.refined.fibers.covered_wake .producers fun side _ => ?_
    cases side with
    | producers =>
      rw [hproducers, if_pos rfl]
      exact Nat.le_add_left _ _
    | consumers =>
      rw [hconsumers]
      exact Nat.zero_le _
  refine ⟨h.refined.consume hrunning hvalue hslot, fun hc side => Fibers.wakeOne_nil (h.closed hc side) _, ?_⟩
  exact hwoken.finish.covered_setReady hcovered hnotify hqueue fun side => (hnot side).1

theorem popLoop (h : WakeInv s) (hrunning : s.fibers.running = some (f, c))
    (hvalue : c.op.value = none) (hside : c.op.side = some .consumers) {atEnd : Answer α}
    (hatEnd : Return.outcome ⟨f, c.op, c.id, atEnd⟩ = .nothing) : WakeInv (s.popLoop f c atEnd) := by
  have hrefined := h.refined.popLoop hrunning hvalue hatEnd
  rw [State.popLoop] at hrefined ⊢
  cases hslot : s.slot with
  | some slot => exact h.consume hrunning hvalue hslot
  | none =>
    by_cases hclosed : s.closed = true
    · simp only [hslot, if_pos hclosed] at hrefined ⊢
      exact h.ret_closed hclosed hrefined
    · simp only [if_neg hclosed, Option.isSome_none, Bool.false_eq_true, if_false]
      refine h.park hrunning hclosed fun side hs => ?_
      rw [hside, Option.some.injEq] at hs
      rw [← hs]
      exact (load_none hslot).2

theorem iterate (h : WakeInv s) (hrunning : s.fibers.running = some (f, c)) :
    WakeInv (s.iterate f c) := by
  have hrefined := h.refined.iterate hrunning
  rw [State.iterate] at hrefined ⊢
  cases hop : c.op with
  | push value => exact h.pushLoop hrunning (by rw [hop]; rfl) (by rw [hop]; rfl)
  | pushWaitUntil value _ => exact h.pushLoop hrunning (by rw [hop]; rfl) (by rw [hop]; rfl)
  | pop => exact h.popLoop hrunning (by rw [hop]; rfl) (by rw [hop]; rfl) (by rw [hop]; rfl)
  | popWaitUntil _ => exact h.popLoop hrunning (by rw [hop]; rfl) (by rw [hop]; rfl) (by rw [hop]; rfl)
  | valuePop => exact h.popLoop hrunning (by rw [hop]; rfl) (by rw [hop]; rfl) (by rw [hop]; rfl)
  | close =>
    rw [hop] at hrefined
    exact ⟨hrefined, fun _ => close_queue s.fibers, fun side hside =>
      absurd (close_queue s.fibers side) hside⟩

/-! ### A fiber goes on -/

theorem leave (h : WakeInv s) (hrunning : s.fibers.running = none)
    (hready : (s.fibers.mode f).isReady = true) {slot : Option (Slot F α)}
    (hcovered : s.fibers.Covered ({ s with slot := slot } : State F α).load)
    (hspare : ∀ side, (s.fibers.mode f).woken side = true →
      ({ s with slot := slot } : State F α).Spare side) {answer : Answer α}
    (hrefined : Refined True
      (State.ret { s with slot := slot, fibers := (s.fibers.waitUnlink f).pick f } f c answer)) :
    WakeInv (State.ret { s with slot := slot, fibers := (s.fibers.waitUnlink f).pick f } f c answer) := by
  refine ⟨hrefined, fun hc side => ?_, h.refined.fibers.covered_giveUp hcovered hrunning hready hspare⟩
  exact Fibers.waitUnlink_nil (h.closed hc side) f

omit [DecidableEq F] in
theorem covered_clear (s : State F α)
    (hkeeps : s.fibers.queue .producers = [] ∨ 0 < s.fibers.wakes .producers) :
    s.fibers.Covered ({ s with slot := none } : State F α).load := by
  obtain ⟨hproducers, hconsumers⟩ := load_none (s := { s with slot := none }) rfl
  intro side hside
  cases side with
  | producers =>
    rw [hproducers]
    exact Nat.le_trans (hkeeps.resolve_left hside) (Nat.le_add_right _ _)
  | consumers =>
    rw [hconsumers]
    exact Nat.zero_le _

theorem timeOut (h : WakeInv s) (hrunning : s.fibers.running = none)
    (hmode : s.fibers.mode f = .expired c ∨ s.fibers.mode f = .notified c)
    (htime : ¬ s.fibers.inTime c = true) (hkeeps : KeepsWakeup s (.resume f)) :
    WakeInv (s.timeOut f c) := by
  have hrefined := h.refined.timeOut hrunning hmode fun _ _ => trivial
  rw [State.timeOut] at hrefined ⊢
  simp only [KeepsWakeup] at hkeeps
  rcases hmode with hmode | hmode
  · have hwoken : ∀ side, (s.fibers.mode f).woken side = false := fun side => by rw [hmode]; rfl
    rw [hmode, State.KeepsWakeup] at hkeeps
    by_cases hc : c.offering = true
    · rw [if_pos hc, h.refined.clearSlot_expired hrunning hmode hc] at hrefined ⊢
      refine h.leave hrunning (by rw [hmode]; rfl) (covered_clear s (hkeeps hc)) (fun side hs => ?_) hrefined
      exact absurd hs (by rw [hwoken]; exact Bool.false_ne_true)
    · rw [if_neg hc] at hrefined ⊢
      refine h.leave hrunning (by rw [hmode]; rfl) h.covered (fun side hs => ?_) hrefined
      exact absurd hs (by rw [hwoken]; exact Bool.false_ne_true)
  · rw [hmode, State.KeepsWakeup] at hkeeps
    have hspare : ∀ side, (s.fibers.mode f).woken side = true → s.Spare side := by
      intro side hs
      rw [hmode] at hs
      exact hkeeps.resolve_left htime side (of_decide_eq_true hs)
    by_cases hc : c.offering = true
    · rw [if_pos hc, h.refined.clearSlot_notified hrunning hmode hc] at hrefined ⊢
      exact h.leave hrunning (by rw [hmode]; rfl) h.covered hspare hrefined
    · rw [if_neg hc] at hrefined ⊢
      exact h.leave hrunning (by rw [hmode]; rfl) h.covered hspare hrefined

theorem resume (h : WakeInv s) (hrunning : s.fibers.running = none)
    (hmode : s.fibers.mode f = .expired c ∨ s.fibers.mode f = .notified c)
    (hkeeps : KeepsWakeup s (.resume f)) : WakeInv (s.resume f c) := by
  have hrefined := h.refined.resume hrunning hmode fun _ _ _ => trivial
  rw [State.resume] at hrefined ⊢
  by_cases htime : s.fibers.inTime c = true
  · have hmode := hmode.resolve_left fun hm =>
      Fibers.not_inTime_of_overdue (h.refined.fibers.expired f c hm) htime
    rw [if_pos htime] at hrefined ⊢
    by_cases hc : c.offering = true
    · rw [if_pos hc] at hrefined ⊢
      refine ⟨hrefined, h.closed, h.refined.fibers.covered_leave h.covered hrunning
        (by rw [hmode]; rfl) (fun _ hnil => hnil) fun side hs => ?_⟩
      have hqueue : (Wait.queue c : Option Side) = none := if_pos hc
      rw [hmode, Mode.woken, hqueue] at hs
      exact absurd hs (by simp)
    · rw [if_neg hc] at hrefined ⊢
      exact ⟨hrefined, h.closed, h.refined.fibers.covered_again h.covered hrunning hmode⟩
  · rw [if_neg htime]
    exact h.timeOut hrunning hmode htime hkeeps

theorem step (h : WakeInv s) {a : Action F α} (hkeeps : KeepsWakeup s a) (hs : step s a = some t) :
    WakeInv t := by
  have hrefined := h.refined.step (.inl trivial) hs
  cases stepped hs with
  | call hrunning _ => exact ⟨hrefined, h.closed, h.covered.run hrunning _ _⟩
  | iterate hrunning => exact h.iterate hrunning
  | expire _ hmode _ => exact ⟨hrefined, h.closed, h.refined.fibers.covered_expire h.covered hmode⟩
  | resume hrunning hmode => exact h.resume hrunning hmode hkeeps
  | tick n => exact ⟨hrefined, h.closed, h.covered⟩

theorem of_reachable {clock : Nat} (hs : (machine clock).ReachableWith KeepsWakeup s) : WakeInv s :=
  hs.invariant (P := WakeInv)
    ⟨.start clock, fun hc => absurd hc Bool.false_ne_true, fun _ hside => absurd rfl hside⟩
    fun _ _ _ hi hok hs => hi.step hok hs

end WakeInv

/-! ### No stuck party -/

/-- When no fiber is to run, no producer waits for a slot that is free and no consumer for a value that is
there; and none waits behind `close`. -/
structure NoStuckParty (s : State F α) : Prop where
  producers : s.fibers.Quiescent → s.slot = none → s.fibers.queue .producers = []
  consumers : s.fibers.Quiescent → s.slot ≠ none → s.fibers.queue .consumers = []
  closed : s.closed = true → ∀ side, s.fibers.queue side = []

theorem unbuffered_channel_wakeups {clock : Nat}
    (hs : (machine clock).ReachableWith KeepsWakeup s) : NoStuckParty s := by
  have h := WakeInv.of_reachable hs
  refine ⟨fun hquiet hslot => ?_, fun hquiet hslot => ?_, h.closed⟩
  · by_contra hside
    have hload := h.covered.nothing hquiet hside
    rw [(load_none hslot).1] at hload
    exact absurd hload (by decide)
  · obtain ⟨slot, hslot⟩ := Option.ne_none_iff_exists'.mp hslot
    by_contra hside
    have hload := h.covered.nothing hquiet hside
    rw [(load_some hslot).2] at hload
    exact absurd hload (by decide)

/-- A consumer and a producer have waited and have been woken, a second producer has waited up to its
deadline. The first one offers its value. -/
theorem unbuffered_channel_wakeups_three : ∃ s : State Nat Nat,
    s.slot = some ⟨7, 2, 2⟩ ∧ s.log.length = 3 ∧ NoStuckParty s := by
  obtain ⟨s, hs, hslot, hlog⟩ : ∃ s : State Nat Nat,
      ((machine 0).guarded fun s a => decide (KeepsWakeup s a)).exec (machine 0).start
        [.call 0 .pop, .iterate, .call 1 (.pushWaitUntil 5 3), .iterate, .call 2 (.push 7), .iterate,
          .resume 0, .iterate, .resume 2, .iterate, .resume 1, .call 1 (.pushWaitUntil 8 3), .iterate,
          .tick 3, .expire 1, .resume 1] = some s ∧
      s.slot = some ⟨7, 2, 2⟩ ∧ s.log.length = 3 := ⟨_, rfl, rfl, rfl⟩
  exact ⟨s, hslot, hlog, unbuffered_channel_wakeups
    ((Machine.reachableWith_of_exec hs).mono fun _ _ => of_decide_eq_true)⟩

/-- A producer waits for a slot that another one has cleared at its deadline, or that was meant for a
producer whose deadline had passed; a consumer waits for a value that was meant for a consumer whose
deadline had passed. -/
theorem unbuffered_channel_loses_wakeup :
    (∃ s : State Nat Nat, (machine 0).Reachable s ∧ s.fibers.Quiescent ∧
      s.fibers.queue .producers = [1] ∧ s.slot = none) ∧
    (∃ s : State Nat Nat, (machine 0).Reachable s ∧ s.fibers.Quiescent ∧
      s.fibers.queue .producers = [2] ∧ s.slot = none) ∧
    ∃ s : State Nat Nat, (machine 0).Reachable s ∧ s.fibers.Quiescent ∧
      s.fibers.queue .consumers = [1] ∧ s.slot = some ⟨5, 2, 2⟩ := by
  refine ⟨?_, ?_, ?_⟩
  · obtain ⟨s, hs, hrunning, hready, hmode, hqueue, hslot⟩ : ∃ s : State Nat Nat,
        (machine 0).exec (machine 0).start
          [.call 0 (.pushWaitUntil 5 3), .iterate, .call 1 (.push 6), .iterate, .tick 3, .expire 0,
            .resume 0] = some s ∧
        s.fibers.running = none ∧ s.fibers.ready = [] ∧
        s.fibers.mode = Function.update (Function.update (Function.update (Function.update
          (fun _ => .outside) 0 (.suspended ⟨.pushWaitUntil 5 3, 0, true⟩)) 1
          (.suspended ⟨.push 6, 1, false⟩)) 0 (.expired ⟨.pushWaitUntil 5 3, 0, true⟩)) 0 .outside ∧
        s.fibers.queue .producers = [1] ∧ s.slot = none :=
      ⟨_, rfl, rfl, rfl, rfl, rfl, rfl⟩
    refine ⟨s, Machine.reachable_of_exec hs, ⟨hrunning, hready, fun f op hf => ?_⟩, hqueue, hslot⟩
    simp only [hmode, Function.update_apply] at hf
    split_ifs at hf
    rw [← Mode.suspended.inj hf]
    rfl
  · obtain ⟨s, hs, hrunning, hready, hmode, hqueue, hslot⟩ : ∃ s : State Nat Nat,
        (machine 0).exec (machine 0).start
          [.call 0 (.push 5), .iterate, .call 1 (.pushWaitUntil 6 3), .iterate, .call 2 (.push 7),
            .iterate, .call 3 .pop, .iterate, .resume 0, .tick 3, .resume 1] = some s ∧
        s.fibers.running = none ∧ s.fibers.ready = [] ∧
        s.fibers.mode = Function.update (Function.update (Function.update (Function.update
          (Function.update (Function.update (Function.update (fun _ => .outside)
            0 (.suspended ⟨.push 5, 0, true⟩)) 1 (.suspended ⟨.pushWaitUntil 6 3, 1, false⟩)) 2
            (.suspended ⟨.push 7, 2, false⟩)) 1 (.notified ⟨.pushWaitUntil 6 3, 1, false⟩)) 0
            (.notified ⟨.push 5, 0, true⟩)) 0 .outside) 1 .outside ∧
        s.fibers.queue .producers = [2] ∧ s.slot = none :=
      ⟨_, rfl, rfl, rfl, rfl, rfl, rfl⟩
    refine ⟨s, Machine.reachable_of_exec hs, ⟨hrunning, hready, fun f op hf => ?_⟩, hqueue, hslot⟩
    simp only [hmode, Function.update_apply] at hf
    split_ifs at hf
    rw [← Mode.suspended.inj hf]
    rfl
  · obtain ⟨s, hs, hrunning, hready, hmode, hqueue, hslot⟩ : ∃ s : State Nat Nat,
        (machine 0).exec (machine 0).start
          [.call 0 (.popWaitUntil 3), .iterate, .call 1 .pop, .iterate, .call 2 (.push 5), .iterate,
            .tick 3, .resume 0] = some s ∧
        s.fibers.running = none ∧ s.fibers.ready = [] ∧
        s.fibers.mode = Function.update (Function.update (Function.update (Function.update
          (Function.update (fun _ => .outside) 0 (.suspended ⟨.popWaitUntil 3, 0, false⟩)) 1
          (.suspended ⟨.pop, 1, false⟩)) 0 (.notified ⟨.popWaitUntil 3, 0, false⟩)) 2
          (.suspended ⟨.push 5, 2, true⟩)) 0 .outside ∧
        s.fibers.queue .consumers = [1] ∧ s.slot = some ⟨5, 2, 2⟩ :=
      ⟨_, rfl, rfl, rfl, rfl, rfl, rfl⟩
    refine ⟨s, Machine.reachable_of_exec hs, ⟨hrunning, hready, fun f op hf => ?_⟩, hqueue, hslot⟩
    simp only [hmode, Function.update_apply] at hf
    split_ifs at hf
    · rw [← Mode.suspended.inj hf]
      rfl
    · rw [← Mode.suspended.inj hf]
      rfl

end Dumbo.Fiber.UnbufferedChannel
