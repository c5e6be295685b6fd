import Dumbo.Fiber.BufferedFifo

/-!
# Waiting for a buffered channel

While no wake-up is dropped, the fibers that wait in a queue are covered by fibers that have been woken
from it: as many as there are values, or free slots.
-/

namespace Dumbo.Fiber.BufferedChannel

open Transition

variable {F α : Type*}

namespace State

/-- What there is to do for the fibers of a side. -/
def load (s : State F α) : Side → Nat
  | .producers => s.ring.capacity - s.ring.size
  | .consumers => s.ring.size

/-- A woken fiber of this side is not needed. -/
abbrev Spare (s : State F α) (side : Side) : Prop := s.fibers.Spare s.load side

end State

/-- The steps that drop no wake-up. `try_push` and `try_pop` do not notify, so one of the fibers woken
before must be left for what they do; and so when a notified fiber finds its deadline passed. -/
def KeepsWakeup (s : State F α) : Action F α → Prop
  | .iterate =>
    match s.fibers.running with
    | some (_, .tryPush _) => s.closed = true ∨ s.ring.isFull = true ∨ s.Spare .consumers
    | some (_, .tryPop) => s.ring.isEmpty = true ∨ s.Spare .producers
    | _ => True
  | .resume f =>
    match s.fibers.mode f with
    | .notified op => s.fibers.inTime op = true ∨
        ∀ side ∈ (Wait.queue op : Option Side), s.Spare side
    | _ => True
  | _ => True

instance (s : State F α) (a : Action F α) : Decidable (KeepsWakeup s a) := by
  unfold KeepsWakeup
  split
  · split <;> infer_instance
  · split <;> infer_instance
  · infer_instance

/-! ### The invariant -/

variable {k first : Nat} {l : List α} {s t : State F α} {f : F} {op : Op α} {r : Ring α}

structure WakeInv (k : Nat) (s : State F α) : Prop where
  fibers : s.fibers.WellFormed
  ring : ∃ first l, s.ring.Holds k first l
  closed : s.closed = true → ∀ side, s.fibers.queue side = []
  covered : s.fibers.Covered s.load

theorem load_of_holds (hk : k ≤ 63) (h : s.ring.Holds k first l) :
    s.load .producers = 2 ^ k - l.length ∧ s.load .consumers = l.length := by
  rw [State.load, State.load, h.capacity, h.size hk]
  exact ⟨rfl, rfl⟩

theorem WakeInv.ret (h : WakeInv k s) (hload : ∀ side, s.fibers.queue side ≠ [] →
    s.load side ≤ s.fibers.wakes side) (answer : Answer α) : WakeInv k (s.ret f op answer) :=
  ⟨h.fibers.finish, h.ring, h.closed, fun side hside =>
    Nat.le_trans (hload side hside) (Nat.le_add_right _ _)⟩

theorem WakeInv.ret_closed (h : WakeInv k s) (hclosed : s.closed = true) (answer : Answer α) :
    WakeInv k (s.ret f op answer) :=
  h.ret (fun side hside => absurd (h.closed hclosed side) hside) answer

theorem WakeInv.silent (h : WakeInv k s) {ring : Ring α} (hring : ∃ first l, ring.Holds k first l)
    (hload : ∀ side, s.fibers.queue side ≠ [] →
      ({ s with ring := ring } : State F α).load side ≤ s.fibers.wakes side) (answer : Answer α) :
    WakeInv k ({ s with ring := ring }.ret f op answer) :=
  WakeInv.ret (s := { s with ring := ring }) ⟨h.fibers, hring, h.closed, fun side hside =>
    Nat.le_trans (hload side hside) (Nat.le_add_right _ _)⟩ hload answer

theorem WakeInv.covered_idle (h : WakeInv k s) (hrunning : s.fibers.running = some (f, op))
    (hop : (Wait.queue op : Option Side) = none) (side : Side) (hside : s.fibers.queue side ≠ []) :
    s.load side ≤ s.fibers.wakes side := by
  have hle := h.covered side hside
  rw [Fibers.runs_some hrunning, hop, if_neg (by simp)] at hle
  exact hle

variable [DecidableEq F]

theorem WakeInv.park (h : WakeInv k s) (hrunning : s.fibers.running = some (f, op))
    (hopen : s.closed ≠ true) (hload : ∀ side, Wait.queue op = some side → s.load side = 0) :
    WakeInv k (s.park f op) :=
  ⟨h.fibers.park (h.fibers.running f op hrunning) op, h.ring, fun hc => absurd hc hopen,
    h.fibers.covered_park h.covered hrunning hload⟩

theorem WakeInv.notify (h : WakeInv k s) {ring : Ring α} {side : Side}
    (hring : ∃ first l, ring.Holds k first l)
    (hload : ∀ side', s.fibers.queue side' ≠ [] →
      ({ s with ring := ring } : State F α).load side' ≤
        s.fibers.wakes side' + if side = side' then 1 else 0) (answer : Answer α) :
    WakeInv k (({ s with ring := ring }.notify side).ret f op answer) := by
  refine ⟨(h.fibers.wakeOne side).finish, hring, fun hc side' => ?_, h.fibers.covered_wake side hload⟩
  exact Fibers.wakeOne_nil (h.closed hc side') side

theorem WakeInv.pushLoop (hk1 : 1 ≤ k) (hk : k ≤ 63) (h : WakeInv k s)
    (hrunning : s.fibers.running = some (f, op)) (hop : Wait.queue op = some Side.producers) (value : α) :
    WakeInv k (s.pushLoop f op value) := by
  obtain ⟨first, l, hring⟩ := h.ring
  obtain ⟨hproducers, hconsumers⟩ := load_of_holds hk hring
  rw [State.pushLoop]
  by_cases hc : s.closed = true
  · rw [if_pos hc]
    exact h.ret_closed hc _
  · rw [if_neg hc, if_neg hc]
    by_cases hlt : l.length < 2 ^ k
    · obtain ⟨ring, hpush, hring'⟩ := hring.tryPush_lt hk hlt value
      obtain ⟨hproducers', hconsumers'⟩ :=
        load_of_holds (s := { s with ring := ring }) hk hring'
      rw [List.length_append, List.length_singleton] at hproducers' hconsumers'
      rw [hpush]
      refine h.notify ⟨first, l ++ [value], hring'⟩ (fun side hside => ?_) _
      have hle := h.covered side hside
      rw [Fibers.runs_some hrunning, hop] at hle
      cases side with
      | producers =>
        rw [if_pos rfl] at hle
        rw [hproducers', if_neg (by decide)]
        omega
      | consumers =>
        rw [if_neg (by decide)] at hle
        rw [hconsumers', if_pos rfl]
        omega
    · have hfull : l.length = 2 ^ k := Nat.le_antisymm hring.length_le (Nat.le_of_not_lt hlt)
      have hisFull : s.ring.isFull = true := (hring.isFull_iff hk1 hk).mpr hfull
      simp only [hring.tryPush_full hk1 hk hfull, hisFull, not_true_eq_false, if_false]
      refine h.park hrunning hc fun side hside => ?_
      rw [hop, Option.some.injEq] at hside
      rw [← hside, hproducers, hfull, Nat.sub_self]

theorem WakeInv.popLoop (hk : k ≤ 63) (h : WakeInv k s)
    (hrunning : s.fibers.running = some (f, op)) (hop : Wait.queue op = some Side.consumers)
    (atEnd : Answer α) : WakeInv k (s.popLoop f op atEnd) := by
  obtain ⟨first, l, hring⟩ := h.ring
  obtain ⟨hproducers, hconsumers⟩ := load_of_holds hk hring
  rw [State.popLoop]
  cases l with
  | nil =>
    rw [hring.tryPop_nil hk]
    by_cases hc : s.closed = true
    · simp only [if_pos hc]
      exact h.ret_closed hc _
    · have hisEmpty : s.ring.isEmpty = true := (hring.isEmpty_iff hk).mpr rfl
      simp only [if_neg hc, hisEmpty, not_true_eq_false, if_false]
      refine h.park hrunning hc fun side hside => ?_
      rw [hop, Option.some.injEq] at hside
      rw [← hside, hconsumers]
      rfl
  | cons v l =>
    obtain ⟨ring, hpop, hring'⟩ := hring.tryPop_cons hk
    obtain ⟨hproducers', hconsumers'⟩ := load_of_holds (s := { s with ring := ring }) hk hring'
    have hlen := hring.length_le
    rw [List.length_cons] at hproducers hconsumers hlen
    rw [hpop]
    refine h.notify ⟨first + 1, l, hring'⟩ (fun side hside => ?_) _
    have hle := h.covered side hside
    rw [Fibers.runs_some hrunning, hop] at hle
    cases side with
    | producers =>
      rw [if_neg (by decide)] at hle
      rw [hproducers', if_pos rfl]
      omega
    | consumers =>
      rw [if_pos rfl] at hle
      rw [hconsumers', if_neg (by decide)]
      omega

omit [DecidableEq F] in
theorem WakeInv.tryPush (hk1 : 1 ≤ k) (hk : k ≤ 63) (h : WakeInv k s) {value : α}
    (hrunning : s.fibers.running = some (f, .tryPush value))
    (hkeeps : s.closed = true ∨ s.ring.isFull = true ∨ s.Spare .consumers) :
    WakeInv k (s.tryPush f value) := by
  obtain ⟨first, l, hring⟩ := h.ring
  obtain ⟨hproducers, hconsumers⟩ := load_of_holds hk hring
  have hidle := h.covered_idle hrunning rfl
  rw [State.tryPush]
  by_cases hc : s.closed = true
  · rw [if_pos hc]
    exact h.ret_closed hc _
  · rw [if_neg hc]
    by_cases hlt : l.length < 2 ^ k
    · obtain ⟨ring, hpush, hring'⟩ := hring.tryPush_lt hk hlt value
      obtain ⟨hproducers', hconsumers'⟩ :=
        load_of_holds (s := { s with ring := ring }) hk hring'
      rw [List.length_append, List.length_singleton] at hproducers' hconsumers'
      have hspare : s.Spare .consumers := by
        refine (hkeeps.resolve_left hc).resolve_left fun hfull => ?_
        rw [hring.isFull_iff hk1 hk] at hfull
        omega
      rw [hpush]
      refine h.silent ⟨first, l ++ [value], hring'⟩ (fun side hside => ?_) _
      have hle := hidle side hside
      cases side with
      | producers =>
        rw [hproducers']
        omega
      | consumers =>
        have hspare' := hspare.resolve_left hside
        rw [hconsumers']
        omega
    · rw [hring.tryPush_full hk1 hk (Nat.le_antisymm hring.length_le (Nat.le_of_not_lt hlt))]
      exact h.ret hidle _

omit [DecidableEq F] in
theorem WakeInv.tryPop (hk : k ≤ 63) (h : WakeInv k s)
    (hrunning : s.fibers.running = some (f, .tryPop))
    (hkeeps : s.ring.isEmpty = true ∨ s.Spare .producers) : WakeInv k (s.tryPop f) := by
  obtain ⟨first, l, hring⟩ := h.ring
  obtain ⟨hproducers, hconsumers⟩ := load_of_holds hk hring
  have hidle := h.covered_idle hrunning rfl
  rw [State.tryPop]
  cases l with
  | nil =>
    rw [hring.tryPop_nil hk]
    exact h.ret hidle _
  | cons v l =>
    obtain ⟨ring, hpop, hring'⟩ := hring.tryPop_cons hk
    obtain ⟨hproducers', hconsumers'⟩ := load_of_holds (s := { s with ring := ring }) hk hring'
    have hlen := hring.length_le
    rw [List.length_cons] at hproducers hconsumers hlen
    have hspare : s.Spare .producers := by
      refine hkeeps.resolve_left fun hempty => ?_
      rw [hring.isEmpty_iff hk] at hempty
      exact absurd hempty (by simp)
    rw [hpop]
    refine h.silent ⟨first + 1, l, hring'⟩ (fun side hside => ?_) _
    have hle := hidle side hside
    cases side with
    | producers =>
      have hspare' := hspare.resolve_left hside
      rw [hproducers']
      omega
    | consumers =>
      rw [hconsumers']
      omega

theorem WakeInv.close (h : WakeInv k s) : WakeInv k (s.close f) :=
  ⟨((h.fibers.wakeAll _).wakeAll _).finish, h.ring, fun _ => close_queue s.fibers,
    fun side hside => absurd (close_queue s.fibers side) hside⟩

theorem WakeInv.iterate (hk1 : 1 ≤ k) (hk : k ≤ 63) (h : WakeInv k s)
    (hrunning : s.fibers.running = some (f, op)) (hkeeps : KeepsWakeup s .iterate) :
    WakeInv k (s.iterate f op) := by
  simp only [KeepsWakeup, hrunning] at hkeeps
  cases op with
  | push value => exact h.pushLoop hk1 hk hrunning rfl value
  | pushWaitUntil value _ => exact h.pushLoop hk1 hk hrunning rfl value
  | tryPush value => exact h.tryPush hk1 hk hrunning hkeeps
  | pop => exact h.popLoop hk hrunning rfl _
  | popWaitUntil _ => exact h.popLoop hk hrunning rfl _
  | valuePop => exact h.popLoop hk hrunning rfl _
  | tryPop => exact h.tryPop hk hrunning hkeeps
  | close => exact h.close

theorem WakeInv.giveUp (h : WakeInv k s) (hrunning : s.fibers.running = none)
    (hready : (s.fibers.mode f).isReady = true)
    (hspare : ∀ side, (s.fibers.mode f).woken side = true → s.Spare side) (answer : Answer α) :
    WakeInv k ({ s with fibers := (s.fibers.waitUnlink f).pick f }.ret f op answer) := by
  refine ⟨h.fibers.giveUp.finish, h.ring, fun hc side => ?_,
    h.fibers.covered_giveUp h.covered hrunning hready hspare⟩
  exact Fibers.waitUnlink_nil (h.closed hc side) f

theorem WakeInv.resume (h : WakeInv k s) (hrunning : s.fibers.running = none)
    (hmode : s.fibers.mode f = .expired op ∨ s.fibers.mode f = .notified op)
    (hkeeps : KeepsWakeup s (.resume f)) : WakeInv k (s.resume f op) := by
  rw [State.resume]
  simp only [KeepsWakeup] at hkeeps
  rcases hmode with hmode | hmode
  · have hlate : ¬ s.fibers.inTime op = true :=
      Fibers.not_inTime_of_overdue (h.fibers.expired f op hmode)
    rw [if_neg hlate]
    refine h.giveUp hrunning (by rw [hmode]; rfl) (fun side hside => ?_) _
    rw [hmode] at hside
    exact absurd hside Bool.false_ne_true
  · rw [hmode] at hkeeps
    split_ifs with htime
    · have hnot : ∀ side, f ∉ s.fibers.queue side :=
        h.fibers.not_linked fun side => by rw [hmode]; exact id
      refine ⟨(h.fibers.resumed hnot).run ?_ op, h.ring, h.closed,
        h.fibers.covered_again h.covered hrunning hmode⟩
      exact Function.update_self f _ _
    · refine h.giveUp hrunning (by rw [hmode]; rfl) (fun side hside => ?_) _
      rw [hmode] at hside
      exact hkeeps.resolve_left htime side (of_decide_eq_true hside)

theorem WakeInv.step (hk1 : 1 ≤ k) (hk : k ≤ 63) (h : WakeInv k s) {a : Action F α}
    (hkeeps : KeepsWakeup s a) (hs : step s a = some t) : WakeInv k t := by
  cases stepped hs with
  | @call f op hrunning hmode =>
    exact ⟨h.fibers.run hmode op, h.ring, h.closed, h.covered.run hrunning f op⟩
  | iterate hrunning => exact h.iterate hk1 hk hrunning hkeeps
  | expire _ hmode hover =>
    exact ⟨h.fibers.expire hmode hover, h.ring, h.closed, h.fibers.covered_expire h.covered hmode⟩
  | resume hrunning hmode => exact h.resume hrunning hmode hkeeps
  | tick n => exact ⟨h.fibers.tick n, h.ring, h.closed, h.covered⟩

theorem WakeInv.of_reachable (hk1 : 1 ≤ k) (hk : k ≤ 63) {clock : Nat}
    (hcreate : Ring.create (2 ^ k) = some r)
    (hs : (machine r clock).ReachableWith KeepsWakeup s) : WakeInv k s := by
  refine hs.invariant (P := WakeInv k) ?_ fun _ _ _ hi hok hs => hi.step hk1 hk hok hs
  obtain ⟨ring, hring, hholds⟩ := Ring.Holds.create (α := α) hk
  rw [hcreate, Option.some.injEq] at hring
  exact ⟨.initial clock, ⟨0, [], hring ▸ hholds⟩, fun _ _ => rfl, fun _ hside => absurd rfl hside⟩

/-! ### No lost wake-up -/

/-- When no fiber is to run, no consumer waits for a value that is there and no producer for a slot that
is free; and none waits behind `close`. -/
structure NoLostWakeup (s : State F α) : Prop where
  consumers : s.fibers.Quiescent → s.fibers.queue .consumers ≠ [] → s.ring.isEmpty = true
  producers : s.fibers.Quiescent → s.fibers.queue .producers ≠ [] →
    s.closed = true ∨ s.ring.isFull = true
  closed : s.closed = true → ∀ side, s.fibers.queue side = []

theorem buffered_channel_wakeups (hk1 : 1 ≤ k) (hk : k ≤ 63) {clock : Nat}
    (hcreate : Ring.create (2 ^ k) = some r)
    (hs : (machine r clock).ReachableWith KeepsWakeup s) : NoLostWakeup s := by
  have h := WakeInv.of_reachable hk1 hk hcreate hs
  obtain ⟨first, l, hring⟩ := h.ring
  obtain ⟨hproducers, hconsumers⟩ := load_of_holds hk hring
  refine ⟨fun hquiet hside => ?_, fun hquiet hside => ?_, h.closed⟩
  · have hload := h.covered.nothing hquiet hside
    rw [hconsumers] at hload
    exact (hring.isEmpty_iff hk).mpr (List.eq_nil_of_length_eq_zero hload)
  · have hload := h.covered.nothing hquiet hside
    have hlen := hring.length_le
    exact .inr ((hring.isFull_iff hk1 hk).mpr (by omega))

/-- A consumer waits for the empty channel, and a producer that has waited for the full one has been
woken and has pushed. -/
theorem buffered_channel_wakeups_two : ∃ s : State Nat Nat, s.fibers.queue .consumers = [0] ∧
    s.log.length = 6 ∧ NoLostWakeup s := by
  obtain ⟨s, hs, hqueue, hlog⟩ : ∃ s : State Nat Nat,
      ((machine ⟨0, 0, fun i => ⟨i, none⟩, 2⟩ 0).guarded fun s a => decide (KeepsWakeup s a)).exec
        (machine ⟨0, 0, fun i => ⟨i, none⟩, 2⟩ 0).start
        [.call 0 (.push 5), .iterate, .call 0 (.tryPush 6), .iterate, .call 1 (.pushWaitUntil 7 3),
          .iterate, .call 0 .pop, .iterate, .resume 1, .iterate, .call 0 .pop, .iterate, .call 0 .pop,
          .iterate, .call 0 .pop, .iterate] = some s ∧
      s.fibers.queue .consumers = [0] ∧ s.log.length = 6 := ⟨_, rfl, rfl, rfl⟩
  exact ⟨s, hqueue, hlog, buffered_channel_wakeups (k := 1) (by decide) (by decide) rfl
    ((Machine.reachableWith_of_exec hs).mono fun _ _ => of_decide_eq_true)⟩

/-- A consumer waits for a value that `try_push` has left, or that was meant for a consumer whose deadline
had passed; a producer waits for a slot that `try_pop` has freed. -/
theorem buffered_channel_loses_wakeup :
    (∃ s : State Nat Nat, (machine ⟨0, 0, fun i => ⟨i, none⟩, 2⟩ 0).Reachable s ∧
      s.fibers.Quiescent ∧ s.fibers.queue .consumers = [0] ∧ s.ring.contents = [some 5]) ∧
    (∃ s : State Nat Nat, (machine ⟨0, 0, fun i => ⟨i, none⟩, 2⟩ 0).Reachable s ∧
      s.fibers.Quiescent ∧ s.fibers.queue .consumers = [1] ∧ s.ring.contents = [some 5]) ∧
    ∃ s : State Nat Nat, (machine ⟨0, 0, fun i => ⟨i, none⟩, 2⟩ 0).Reachable s ∧
      s.fibers.Quiescent ∧ s.fibers.queue .producers = [0] ∧ s.closed = false ∧
        s.ring.isFull = false := by
  refine ⟨?_, ?_, ?_⟩
  · obtain ⟨s, hs, hrunning, hready, hmode, hqueue, hring⟩ : ∃ s : State Nat Nat,
        (machine ⟨0, 0, fun i => ⟨i, none⟩, 2⟩ 0).exec (machine ⟨0, 0, fun i => ⟨i, none⟩, 2⟩ 0).start
          [.call 0 .pop, .iterate, .call 1 (.tryPush 5), .iterate] = some s ∧
        s.fibers.running = none ∧ s.fibers.ready = [] ∧
        s.fibers.mode = Function.update (fun _ => .outside) 0 (.suspended .pop) ∧
        s.fibers.queue .consumers = [0] ∧ s.ring.contents = [some 5] :=
      ⟨_, rfl, rfl, rfl, rfl, rfl, rfl⟩
    refine ⟨s, Machine.reachable_of_exec hs, ⟨hrunning, hready, fun f op hf => ?_⟩, hqueue, hring⟩
    rw [hmode, Function.update_apply] at hf
    split_ifs at hf
    rw [← Mode.suspended.inj hf]
    rfl
  · obtain ⟨s, hs, hrunning, hready, hmode, hqueue, hring⟩ : ∃ s : State Nat Nat,
        (machine ⟨0, 0, fun i => ⟨i, none⟩, 2⟩ 0).exec (machine ⟨0, 0, fun i => ⟨i, none⟩, 2⟩ 0).start
          [.call 0 (.popWaitUntil 3), .iterate, .call 1 .pop, .iterate, .call 2 (.push 5), .iterate,
            .tick 3, .resume 0] = some s ∧
        s.fibers.running = none ∧ s.fibers.ready = [] ∧
        s.fibers.mode = Function.update (Function.update (Function.update (Function.update
          (fun _ => .outside) 0 (.suspended (.popWaitUntil 3))) 1 (.suspended .pop)) 0
          (.notified (.popWaitUntil 3))) 0 .outside ∧
        s.fibers.queue .consumers = [1] ∧ s.ring.contents = [some 5] :=
      ⟨_, rfl, rfl, rfl, rfl, rfl, rfl⟩
    refine ⟨s, Machine.reachable_of_exec hs, ⟨hrunning, hready, fun f op hf => ?_⟩, hqueue, hring⟩
    simp only [hmode, Function.update_apply] at hf
    split_ifs at hf
    rw [← Mode.suspended.inj hf]
    rfl
  · obtain ⟨s, hs, hrunning, hready, hmode, hqueue, hclosed, hring⟩ : ∃ s : State Nat Nat,
        (machine ⟨0, 0, fun i => ⟨i, none⟩, 2⟩ 0).exec (machine ⟨0, 0, fun i => ⟨i, none⟩, 2⟩ 0).start
          [.call 0 (.push 5), .iterate, .call 0 (.push 6), .iterate, .call 0 (.push 7), .iterate,
            .call 1 .tryPop, .iterate] = some s ∧
        s.fibers.running = none ∧ s.fibers.ready = [] ∧
        s.fibers.mode = Function.update (fun _ => .outside) 0 (.suspended (.push 7)) ∧
        s.fibers.queue .producers = [0] ∧ s.closed = false ∧ s.ring.isFull = false :=
      ⟨_, rfl, rfl, rfl, rfl, rfl, rfl, rfl⟩
    refine ⟨s, Machine.reachable_of_exec hs, ⟨hrunning, hready, fun f op hf => ?_⟩, hqueue, hclosed, hring⟩
    rw [hmode, Function.update_apply] at hf
    split_ifs at hf
    rw [← Mode.suspended.inj hf]
    rfl

end Dumbo.Fiber.BufferedChannel
