import Dumbo.Fiber.BufferedFifo

/-!
# The capacities of `buffered_channel`

One fiber calls `try_push` and `try_pop`. The constructor accepts the capacity 1, for which the slot of
a value that has not been consumed cannot be told from one that is free for the next value.
-/

namespace Dumbo.Fiber.BufferedChannel

open Transition

variable {α F : Type*} [DecidableEq F]

/-- The values that have been pushed and not been popped. -/
def State.unconsumed (s : State F α) : List α :=
  (Fifo.pushes (s.log.map Return.event)).drop (Fifo.pops (s.log.map Return.event)).length

/-- The steps of a fiber that calls `try_push` and `try_pop`. -/
inductive TryCall (f : F) : Action F α → Prop
  | tryPush (value) : TryCall f (.call f (.tryPush value))
  | tryPop : TryCall f (.call f .tryPop)
  | iterate : TryCall f .iterate

/-- A call of `try_push` or `try_pop` in a channel of `n` slots does what it is meant to do. -/
structure Works (M : Machine (State F α) (Action F α)) (n : Nat) (s : State F α) : Prop where
  /-- nothing is written to the ring -/
  full : ∀ f value, s.fibers.running = some (f, .tryPush value) → s.unconsumed.length = n →
    M.step s .iterate = some (s.ret f (.tryPush value) (.status .full))
  success : ∀ f value, s.fibers.running = some (f, .tryPush value) → s.unconsumed.length < n →
    ∃ ring, M.step s .iterate =
      some ({ s with ring := ring }.ret f (.tryPush value) (.status .success))
  terminates : ∀ f op, s.fibers.running = some (f, op) →
    ∃ m t, M.exec s (List.replicate m .iterate) = some t ∧ t.fibers.running = none

theorem create_two_pow {n : Nat} {r : Ring α} (hcreate : Ring.create n = some r) :
    ∃ k, n = 2 ^ k := by
  rw [Ring.create] at hcreate
  split_ifs at hcreate with h
  rw [not_or, not_not] at h
  exact (Nat.and_sub_one_eq_zero_iff_isPowerOfTwo h.1).mp h.2

theorem machine_iterate {s : State F α} {r : Ring α} {clock : Nat} {f : F} {op : Op α}
    (hr : s.fibers.running = some (f, op)) :
    (machine r clock).step s .iterate = some (s.iterate f op) := by
  simp only [machine, step, hr]

/-! ### Capacities from 2 on -/

/-- The channel is open and the fiber is in no other call. -/
structure Trying (s : State F α) : Prop where
  closed : s.closed = false
  running : ∀ f op, s.fibers.running = some (f, op) → (∃ value, op = .tryPush value) ∨ op = .tryPop

variable {k first : Nat} {l : List α} {s t : State F α} {f : F}

omit [DecidableEq F] in
theorem Trying.ret (h : Trying s) {op : Op α} {answer : Answer α} (ring : Ring α) :
    Trying ({ s with ring := ring }.ret f op answer) :=
  ⟨h.closed, fun _ _ hr => absurd hr (Option.some_ne_none _).symm⟩

omit [DecidableEq F] in
theorem State.tryPush_success {ring : Ring α} {value : α} (hopen : s.closed = false)
    (hpush : s.ring.tryPush value = .success ring) (f : F) :
    s.tryPush f value = { s with ring := ring }.ret f (.tryPush value) (.status .success) := by
  rw [State.tryPush, hopen, if_neg Bool.false_ne_true, hpush]

omit [DecidableEq F] in
theorem State.tryPush_lt (hopen : s.closed = false) (hring : s.ring.Holds k first l) (hk : k ≤ 63)
    (hlt : l.length < 2 ^ k) (f : F) (value : α) :
    ∃ ring, s.tryPush f value =
      { s with ring := ring }.ret f (.tryPush value) (.status .success) := by
  obtain ⟨ring, hpush, -⟩ := hring.tryPush_lt hk hlt value
  exact ⟨ring, State.tryPush_success hopen hpush f⟩

omit [DecidableEq F] in
theorem State.tryPush_full (hopen : s.closed = false) (hring : s.ring.Holds k first l) (hk1 : 1 ≤ k)
    (hk : k ≤ 63) (hfull : l.length = 2 ^ k) (f : F) (value : α) :
    s.tryPush f value = s.ret f (.tryPush value) (.status .full) := by
  rw [State.tryPush, hopen, if_neg Bool.false_ne_true, hring.tryPush_full hk1 hk hfull]

omit [DecidableEq F] in
theorem State.tryPop_returns (hring : s.ring.Holds k first l) (hk : k ≤ 63) (f : F) :
    ∃ ring answer, s.tryPop f = { s with ring := ring }.ret f .tryPop answer := by
  rw [State.tryPop]
  cases l with
  | nil =>
    rw [hring.tryPop_nil hk]
    exact ⟨s.ring, _, rfl⟩
  | cons v l =>
    obtain ⟨ring, hpop, -⟩ := hring.tryPop_cons hk
    rw [hpop]
    exact ⟨ring, _, rfl⟩

theorem Trying.iterate (h : Trying s) (hs : s.Refined k) (hk1 : 1 ≤ k) (hk : k ≤ 63) {op : Op α}
    (hr : s.fibers.running = some (f, op)) :
    ∃ ring answer, s.iterate f op = { s with ring := ring }.ret f op answer := by
  obtain ⟨first, l, hring, -⟩ := hs
  rcases h.running f op hr with ⟨value, rfl⟩ | rfl
  · rw [State.iterate]
    by_cases hlt : l.length < 2 ^ k
    · obtain ⟨ring, he⟩ := State.tryPush_lt h.closed hring hk hlt f value
      exact ⟨ring, _, he⟩
    · have hfull := Nat.le_antisymm hring.length_le (Nat.le_of_not_lt hlt)
      exact ⟨s.ring, _, State.tryPush_full h.closed hring hk1 hk hfull f value⟩
  · exact State.tryPop_returns hring hk f

theorem Trying.step (h : Trying s) (hs : s.Refined k) (hk1 : 1 ≤ k) (hk : k ≤ 63) {a : Action F α}
    (ha : TryCall f a) (hstep : step s a = some t) : Trying t := by
  have hcall : ∀ g op, ((∃ value, op = .tryPush value) ∨ op = .tryPop) →
      Trying { s with fibers := s.fibers.run g op } := by
    intro g op hop
    refine ⟨h.closed, fun g' op' hr => ?_⟩
    obtain ⟨-, rfl⟩ := Prod.mk.inj (Option.some.inj hr)
    exact hop
  cases stepped hstep with
  | iterate hr =>
    obtain ⟨ring, answer, he⟩ := h.iterate hs hk1 hk hr
    rw [he]
    exact h.ret ring
  | call =>
    cases ha with
    | tryPush value => exact hcall _ _ (.inl ⟨value, rfl⟩)
    | tryPop => exact hcall _ _ (.inr rfl)
  | expire | resume | tick => cases ha

omit [DecidableEq F] in
theorem unconsumed_eq {q : Fifo α} (hrun : Fifo.Run (2 ^ k) (s.log.map Return.event) q) :
    s.unconsumed = q.contents := by
  rw [State.unconsumed, hrun.conserve, List.drop_left]

theorem works (h : Trying s) (hs : s.Refined k) (hk1 : 1 ≤ k) (hk : k ≤ 63) (r : Ring α)
    (clock : Nat) : Works (machine r clock) (2 ^ k) s := by
  obtain ⟨first, l, hring, hrun⟩ := hs
  constructor
  · intro f value hr hfull
    rw [unconsumed_eq hrun] at hfull
    rw [machine_iterate hr, State.iterate, State.tryPush_full h.closed hring hk1 hk hfull]
  · intro f value hr hlt
    rw [unconsumed_eq hrun] at hlt
    obtain ⟨ring, he⟩ := State.tryPush_lt h.closed hring hk hlt f value
    refine ⟨ring, ?_⟩
    rw [machine_iterate hr, State.iterate, he]
  · intro f op hr
    obtain ⟨ring, answer, he⟩ := h.iterate ⟨first, l, hring, hrun⟩ hk1 hk hr
    refine ⟨1, { s with ring := ring }.ret f op answer, ?_, rfl⟩
    rw [List.replicate_one, Machine.exec_cons]
    refine ⟨_, ?_, rfl⟩
    rw [machine_iterate hr, he]

theorem trying_of_reachable (hk1 : 1 ≤ k) (hk : k ≤ 63) {r : Ring α}
    (hcreate : Ring.create (2 ^ k) = some r) {clock : Nat}
    (hs : (machine r clock).ReachableWith (fun _ a => TryCall f a) s) :
    Trying s ∧ s.Refined k := by
  refine ⟨?_, State.Refined.of_reachable hk1 hk hcreate hs.reachable⟩
  induction hs with
  | start => exact ⟨rfl, fun _ _ hr => absurd hr (Option.some_ne_none _).symm⟩
  | step hs ha hstep ih =>
    exact ih.step (State.Refined.of_reachable hk1 hk hcreate hs.reachable) hk1 hk ha hstep

/-! ### The capacity 1 -/

section OneSlot

variable {r : Ring α} {v w : α}

/-- The only slot looks free to a producer, whether it is or not. -/
theorem Ring.Holds.producer_difference_one (h : r.Holds 0 first l) :
    difference (r.slots (r.position r.producerIdx)).cycle r.producerIdx = 0 := by
  rw [h.producer_difference (Nat.zero_le _)]
  split_ifs
  · rfl
  · rfl

theorem Ring.Holds.tryPush_one (h : r.Holds 0 first l) (v : α) :
    ∃ ring, r.tryPush v = .success ring := by
  simp only [Ring.tryPush, h.producer_difference_one, if_true]
  exact ⟨_, rfl⟩

theorem Ring.Holds.tryPop_one (h : r.Holds 0 first [w]) {ring : Ring α}
    (hpush : r.tryPush v = .success ring) : ring.tryPop = .again := by
  have hposition : ∀ idx, idx &&& (r.capacity - 1) = 0 := by
    intro idx
    rw [h.capacity, pow_zero, Nat.sub_self, Nat.and_zero]
  simp only [Ring.tryPush, h.producer_difference_one, if_true, TryPush.success.injEq] at hpush
  subst hpush
  have hcycle : difference ((r.producerIdx + 1) % sizeMax) ((r.consumerIdx + 1) % sizeMax) = 1 := by
    rw [h.producerIdx, h.consumerIdx, Nat.mod_add_mod, Nat.mod_add_mod, List.length_singleton,
      difference_mod (a := first + 1 + 1) (b := first + 1) (by omega) (by omega)]
    push_cast
    omega
  simp only [Ring.tryPop, Ring.setSlot, Ring.position, hposition, Function.update_self, hcycle]
  rfl

end OneSlot

/-- The first value has been pushed into a channel of one slot, and the second is about to be. -/
def secondPush (ring : Ring α) (clock : Nat) (f : F) (value : α) : State F α :=
  let start : State F α := ⟨ring, false, .initial clock, []⟩
  let first := start.ret f (.tryPush value) (.status .success)
  { first with fibers := first.fibers.run f (.tryPush value) }

theorem secondPush_reachable {r : Ring α} (hcreate : Ring.create 1 = some r) (clock : Nat) (f : F)
    (value : α) : ∃ ring : Ring α, ring.Holds 0 0 [value] ∧
      (machine r clock).ReachableWith (fun _ a => TryCall f a) (secondPush ring clock f value) := by
  obtain ⟨r', hr', hholds⟩ := Ring.Holds.create (α := α) (Nat.zero_le 63)
  rw [pow_zero, hcreate, Option.some.injEq] at hr'
  subst hr'
  obtain ⟨ring, hpush, hring⟩ := hholds.tryPush_lt (Nat.zero_le _) Nat.zero_lt_one value
  let start : State F α := ⟨r, false, .initial clock, []⟩
  let called : State F α := { start with fibers := start.fibers.run f (.tryPush value) }
  let first : State F α :=
    { called with ring := ring }.ret f (.tryPush value) (.status .success)
  have hcalled : (machine r clock).ReachableWith (fun _ a => TryCall f a) called :=
    .step (a := .call f (.tryPush value)) .start (.tryPush value) rfl
  have hfirst : (machine r clock).ReachableWith (fun _ a => TryCall f a) first := by
    apply Machine.ReachableWith.step hcalled .iterate
    have hr : called.fibers.running = some (f, .tryPush value) := rfl
    rw [machine_iterate hr, State.iterate]
    exact congrArg some (State.tryPush_success (s := called) rfl hpush f)
  exact ⟨ring, hring, .step (a := .call f (.tryPush value)) hfirst (.tryPush value) rfl⟩

/-- The second value takes the place of the first one. -/
theorem secondPush_success {ring : Ring α} {value : α} (hring : ring.Holds 0 0 [value]) (r : Ring α)
    (clock : Nat) (f : F) : ∃ ring', ring.tryPush value = .success ring' ∧
      (machine r clock).step (secondPush ring clock f value) .iterate =
        some ({ secondPush ring clock f value with ring := ring' }.ret f (.tryPush value)
          (.status .success)) := by
  obtain ⟨ring', hpush⟩ := hring.tryPush_one value
  refine ⟨ring', hpush, ?_⟩
  have hr : (secondPush ring clock f value).fibers.running = some (f, .tryPush value) := rfl
  rw [machine_iterate hr, State.iterate]
  exact congrArg some (State.tryPush_success (s := secondPush ring clock f value) rfl hpush f)

theorem not_works_one {ring : Ring α} {value : α} (hring : ring.Holds 0 0 [value]) (r : Ring α)
    (clock : Nat) (f : F) : ¬ Works (machine r clock) 1 (secondPush ring clock f value) := by
  intro hworks
  obtain ⟨ring', -, hstep⟩ := secondPush_success hring r clock f
  have hfull := hworks.full f value rfl rfl
  rw [hstep, Option.some.injEq] at hfull
  have hlog := congrArg State.log hfull
  simp [State.ret] at hlog

/-- The next `try_pop` never returns. -/
theorem tryPop_spins {ring ring' : Ring α} {value : α} (hring : ring.Holds 0 0 [value])
    (hpush : ring.tryPush value = .success ring') {s : State F α} (hs : s.ring = ring') {f : F}
    (hr : s.fibers.running = some (f, .tryPop)) (r : Ring α) (clock n : Nat) :
    (machine r clock).exec s (List.replicate n .iterate) = some s := by
  apply Machine.exec_replicate
  rw [machine_iterate hr, State.iterate, State.tryPop, hs, hring.tryPop_one hpush]

/-- A channel of `n` slots works if and only if `n` is not 1. -/
theorem buffered_channel_capacity [Inhabited α] {n : Nat} (hn : n < sizeMax) {r : Ring α}
    (hcreate : Ring.create n = some r) (clock : Nat) (f : F) :
    (∀ s, (machine r clock).ReachableWith (fun _ a => TryCall f a) s → Works (machine r clock) n s) ↔
      n ≠ 1 := by
  constructor
  · rintro hworks rfl
    obtain ⟨ring, hring, hs⟩ := secondPush_reachable hcreate clock f default
    exact not_works_one hring r clock f (hworks _ hs)
  · intro hne s hs
    obtain ⟨k, rfl⟩ := create_two_pow hcreate
    have hk1 : 1 ≤ k := by
      by_contra hk0
      rw [Nat.lt_one_iff.mp (Nat.lt_of_not_le hk0)] at hne
      exact hne rfl
    have hk : k ≤ 63 := by
      rw [sizeMax_eq] at hn
      exact Nat.le_of_lt_succ ((Nat.pow_lt_pow_iff_right Nat.one_lt_two).mp hn)
    obtain ⟨htrying, hrefined⟩ := trying_of_reachable hk1 hk hcreate hs
    exact works htrying hrefined hk1 hk r clock

theorem buffered_channel_capacity_two : (2 : Nat) < sizeMax ∧
    (Ring.create 2 = some (⟨0, 0, fun i => ⟨i, none⟩, 2⟩ : Ring Nat)) ∧
    ((∀ s, (machine (⟨0, 0, fun i => ⟨i, none⟩, 2⟩ : Ring Nat) 0).ReachableWith
        (fun _ a => TryCall 0 a) s → Works (machine ⟨0, 0, fun i => ⟨i, none⟩, 2⟩ 0) 2 s) ↔ 2 ≠ 1) :=
  ⟨by decide, rfl, buffered_channel_capacity (by decide) rfl 0 0⟩

/-- The value 5 is pushed twice into a channel of one slot, and `try_pop` spins. -/
theorem buffered_channel_capacity_one : ∃ r : Ring Nat, Ring.create 1 = some r ∧
    (∃ s, (machine r 0).ReachableWith (fun _ a => TryCall 0 a) s ∧ s.unconsumed = [5] ∧
      s.fibers.running = some (0, .tryPush 5) ∧ ¬ Works (machine r 0) 1 s) ∧
    ∃ s, (machine r 0).ReachableWith (fun _ a => TryCall 0 a) s ∧
      s.fibers.running = some (0, .tryPop) ∧
      ∀ m, (machine r 0).exec s (List.replicate m .iterate) = some s := by
  have hcreate : Ring.create 1 = some (⟨0, 0, fun i => ⟨i, none⟩, 1⟩ : Ring Nat) := rfl
  obtain ⟨ring, hring, hs⟩ := secondPush_reachable hcreate 0 0 5
  refine ⟨_, hcreate, ⟨_, hs, rfl, rfl, not_works_one hring _ 0 0⟩, ?_⟩
  obtain ⟨ring', hpush, hstep⟩ := secondPush_success hring ⟨0, 0, fun i => ⟨i, none⟩, 1⟩ 0 0
  have hsecond := hs.step .iterate hstep
  exact ⟨_, hsecond.step (a := .call 0 .tryPop) .tryPop rfl, rfl,
    tryPop_spins hring hpush rfl rfl _ 0⟩

end Dumbo.Fiber.BufferedChannel
