import Dumbo.Lib.Machine
import Mathlib.Data.List.Basic

/-!
# The message of a waiting fiber

`FiberIOMessage` with the fiber that owns it. The event loop and the fiber run on one thread: a
`finish()` comes while the fiber is suspended in `wait_for`, or between two of its waits.
-/

namespace Dumbo.Reactor

open Transition

/-- `--count_` on a `size_t`. -/
def decrement (count : Nat) : Nat :=
  if count = 0 then 18446744073709551615 else count - 1

/-- The fiber of a message, as its scheduler sees it. -/
inductive FiberState
  | running
  /-- in the `wait_queue_` -/
  | waiting
  /-- resumed and not yet picked -/
  | ready
  deriving DecidableEq, Repr

structure FiberIoMessage where
  count : Nat
  fiber : FiberState
  /-- an assertion of the scheduler has failed -/
  fault : Bool
  deriving DecidableEq, Repr

namespace FiberIoMessage

/-- The constructor runs in the fiber that owns the message. -/
def create (count : Nat) : FiberIoMessage := ⟨count, .running, false⟩

/-- `Scheduler::resume(ctx)`, with its assertion that the fiber is in the wait queue. -/
def resume (m : FiberIoMessage) : FiberIoMessage :=
  if m.fiber = .waiting then { m with fiber := .ready } else { m with fault := true }

def finish (m : FiberIoMessage) : FiberIoMessage :=
  let m' := { m with count := decrement m.count }
  if m'.count = 0 then m'.resume else m'

/-- `wait_for()`, up to the switch to another fiber. -/
def waitFor (m : FiberIoMessage) : FiberIoMessage :=
  { m with fiber := .waiting }

/-- The scheduler picks the fiber, and `wait_for()` returns. -/
def pick (m : FiberIoMessage) : FiberIoMessage :=
  { m with fiber := .running }

end FiberIoMessage

namespace Rearming

/-! ### A message that is used for many waits -/

structure State where
  message : FiberIoMessage
  /-- for each `finish()` so far, whether a wait was pending -/
  events : List Bool
  /-- the calls of `finish()` during a wait that did not end it -/
  missed : Nat
  /-- the calls of `finish()` that took the counter below zero -/
  wrapped : Nat
  deriving DecidableEq, Repr

inductive Action
  | wait
  | event
  | pick
  deriving DecidableEq, Repr

/-- The event loop calls `finish()`. -/
def State.event (s : State) : State where
  message := s.message.finish
  events := s.events ++ [decide (s.message.fiber = .waiting)]
  missed :=
    if s.message.fiber = .waiting ∧ s.message.finish.fiber = .waiting then s.missed + 1
    else s.missed
  wrapped := if s.message.count = 0 then s.wrapped + 1 else s.wrapped

/-- A failed assertion ends the program. -/
def step (s : State) (a : Action) : Option State :=
  if s.message.fault then none
  else match a with
  | .wait =>
    if s.message.fiber = .running then some { s with message := s.message.waitFor } else none
  | .event => some s.event
  | .pick =>
    if s.message.fiber = .ready then some { s with message := s.message.pick } else none

/-- The member `message_` of a `StreamSocketConnection`. -/
def machine : Machine State Action :=
  ⟨⟨FiberIoMessage.create 1, [], 0, 0⟩, step⟩

/-- Every wait was ended by the first `finish()` that followed it, and the counter has not wrapped. -/
structure Rearmed (s : State) : Prop where
  missed : s.missed = 0
  wrapped : s.wrapped = 0
  fault : s.message.fault = false

/-- What the runs look like: nothing yet, one event in a wait, one event outside of a wait, or a
counter that has wrapped. -/
structure Inv (s : State) : Prop where
  unused : s.events = [] → s.message.count = 1 ∧ s.message.fault = false ∧ s.message.fiber ≠ .ready
  used : s.events = [true] → s.message.count = 0 ∧ s.message.fault = false
  outside : s.events = [false] → s.message.fault = true
  wrapped : s.wrapped = 0 ↔ s.events.length ≤ 1
  missed : s.events.length ≤ 1 → s.missed = 0

theorem Inv.start : Inv machine.start := by
  constructor <;> simp [machine, FiberIoMessage.create]

variable {s t : State}

theorem Inv.event (h : Inv s) (hf : s.message.fault = false) : Inv s.event := by
  rcases hev : s.events with _ | ⟨b, rest⟩
  · obtain ⟨hcount, _, hready⟩ := h.unused hev
    have hmissed := h.missed (by rw [hev]; exact Nat.zero_le _)
    have hwrapped := h.wrapped.mpr (by rw [hev]; exact Nat.zero_le _)
    by_cases hw : s.message.fiber = .waiting
    · constructor <;>
        simp [State.event, FiberIoMessage.finish, FiberIoMessage.resume, decrement, hev, hcount, hw,
          hf, hmissed, hwrapped]
    · constructor <;>
        simp [State.event, FiberIoMessage.finish, FiberIoMessage.resume, decrement, hev, hcount, hw,
          hmissed, hwrapped]
  · have hlen : ¬ s.event.events.length ≤ 1 := by
      rw [State.event, hev, List.length_append, List.length_cons, List.length_singleton]
      omega
    have hpast : ∀ e : List Bool, e.length ≤ 1 → s.event.events ≠ e :=
      fun e he heq => hlen (heq ▸ he)
    refine ⟨fun he => absurd he (hpast _ (Nat.zero_le _)), fun he => absurd he (hpast _ (Nat.le_refl _)),
      fun he => absurd he (hpast _ (Nat.le_refl _)), ⟨fun hw => ?_, fun he => absurd he hlen⟩,
      fun he => absurd he hlen⟩
    -- the second event finds the counter at zero, and a later one is not the first to wrap it
    exfalso
    by_cases hone : s.events.length ≤ 1
    · have hrest : rest = [] := by
        rw [hev, List.length_cons] at hone
        exact List.eq_nil_of_length_eq_zero (by omega)
      subst hrest
      cases b with
      | true =>
        rw [State.event, (h.used hev).1, if_pos rfl] at hw
        exact absurd hw (Nat.succ_ne_zero _)
      | false =>
        rw [h.outside hev] at hf
        exact absurd hf (by decide)
    · have hprev : s.wrapped ≠ 0 := fun h0 => hone (h.wrapped.mp h0)
      simp only [State.event] at hw
      split at hw
      · exact absurd hw (Nat.succ_ne_zero _)
      · exact hprev hw

theorem Inv.step {a : Action} (h : Inv s) (hs : machine.step s a = some t) : Inv t := by
  simp only [machine, Rearming.step, Option.ite_none_left_eq_some, Bool.not_eq_true] at hs
  obtain ⟨hf, hs⟩ := hs
  cases a with
  | wait =>
    simp only [Option.ite_none_right_eq_some, Option.some.injEq] at hs
    obtain ⟨_, rfl⟩ := hs
    refine ⟨fun he => ?_, h.used, h.outside, h.wrapped, h.missed⟩
    obtain ⟨hcount, hfault, _⟩ := h.unused he
    exact ⟨hcount, hfault, by simp [FiberIoMessage.waitFor]⟩
  | event =>
    simp only [Option.some.injEq] at hs
    exact hs ▸ h.event hf
  | pick =>
    simp only [Option.ite_none_right_eq_some, Option.some.injEq] at hs
    obtain ⟨hready, rfl⟩ := hs
    refine ⟨fun he => ?_, h.used, h.outside, h.wrapped, h.missed⟩
    exact absurd hready (h.unused he).2.2

/-- A message is good for one event: the waits are ended by the first `finish()` that follows them
and the counter does not wrap exactly in the runs with at most one `finish()`, and that one during a
wait. -/
theorem rearmed_iff (h : machine.Reachable s) :
    Rearmed s ↔ s.events = [] ∨ s.events = [true] := by
  have hinv : Inv s := h.invariant Inv.start fun _ _ _ hi hs => hi.step hs
  constructor
  · intro hr
    have hlen := hinv.wrapped.mp hr.wrapped
    rcases hev : s.events with _ | ⟨b, rest⟩
    · exact .inl rfl
    · rw [hev, List.length_cons] at hlen
      have hrest : rest = [] := List.eq_nil_of_length_eq_zero (by omega)
      subst hrest
      cases b with
      | true => exact .inr rfl
      | false =>
        have hf := hinv.outside hev
        rw [hr.fault] at hf
        exact absurd hf Bool.false_ne_true
  · rintro (hev | hev)
    · have hlen : s.events.length ≤ 1 := by rw [hev]; exact Nat.zero_le _
      exact ⟨hinv.missed hlen, hinv.wrapped.mpr hlen, (hinv.unused hev).2.1⟩
    · have hlen : s.events.length ≤ 1 := by rw [hev]; exact Nat.le_refl _
      exact ⟨hinv.missed hlen, hinv.wrapped.mpr hlen, (hinv.used hev).2⟩

/-- One wait and its event. -/
theorem rearmed_once : ∃ s, s.events = [true] ∧ (Rearmed s ↔ s.events = [] ∨ s.events = [true]) := by
  obtain ⟨s, hs, hev⟩ : ∃ s, machine.exec machine.start [.wait, .event, .pick] = some s ∧
      s.events = [true] := ⟨_, rfl, rfl⟩
  exact ⟨s, hev, rearmed_iff (Machine.reachable_of_exec hs)⟩

/-- The second wait is not ended by its event: the counter has wrapped and the fiber stays in the
wait queue. -/
theorem second_wait_missed : ∃ s, machine.Reachable s ∧ s.message.fiber = .waiting ∧
    s.message.count = 18446744073709551615 ∧ s.events = [true, true] ∧ ¬ Rearmed s := by
  obtain ⟨s, hs, hw, hc, hev, hm⟩ : ∃ s, machine.exec machine.start
      [.wait, .event, .pick, .wait, .event] = some s ∧ s.message.fiber = .waiting ∧
      s.message.count = 18446744073709551615 ∧ s.events = [true, true] ∧ s.missed = 1 :=
    ⟨_, rfl, rfl, rfl, rfl, rfl⟩
  refine ⟨s, Machine.reachable_of_exec hs, hw, hc, hev, fun hr => ?_⟩
  rw [hr.missed] at hm
  exact absurd hm (by decide)

end Rearming

end Dumbo.Reactor
