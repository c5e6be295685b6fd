import Dumbo.Disruptor.Sequence
import Dumbo.Lib.Machine

/-!
# Publishing batches through a sequencer

`Sequencer::Claim(delta)` and `Publish(sequence, delta)` with the `MultiThreadedStrategy`, as a
machine whose steps are the atomic operations of any number of publishers and consumers,
sequentially consistent. The ring has `2 ^ k` slots. The counters are `int64_t`: a claim that would
leave that range is not a step.
-/

namespace Dumbo.Disruptor.Sequencer

open Transition

abbrev ThreadId := Nat

def int64Max : Int := 9223372036854775807

/-- `a - n` for an `int64_t` and a `size_t`: the subtraction is made modulo 2^64, and its result is
read as an `int64_t`. -/
def minusSize (a : Int) (n : Nat) : Int :=
  (a - n).bmod 18446744073709551616

theorem minusSize_eq {a : Int} {n : Nat} (h : -9223372036854775808 ≤ a - n)
    (h' : a - n ≤ int64Max) : minusSize a n = a - n := by
  simp only [int64Max] at h'
  apply Int.bmod_eq_of_le
  · omega
  · omega

structure Claimed where
  thread : ThreadId
  sequence : Int
  delta : Nat
  deriving DecidableEq, Repr

/-- Where a publisher stands between two batches. -/
inductive Pc
  | idle
  /-- in `IncrementAndGet`, before the load of `last_consumer_sequence_` -/
  | check (sequence : Int) (delta : Nat)
  /-- in `GetMinimumSequence`, before the load of the gating sequence `next` -/
  | scan (sequence : Int) (delta : Nat) (next : Nat) (minimum : Int)
  /-- `Claim` has returned -/
  | write (sequence : Int) (delta : Nat)
  /-- in the wait loop of `SynchronizePublishing` -/
  | synchronize (sequence : Int) (delta : Nat)
  /-- before the `fetch_add` of the cursor -/
  | publish (sequence : Int) (delta : Nat)
  deriving DecidableEq, Repr

variable {T : Type}

structure State (T : Type) where
  lastClaimed : Int
  lastConsumer : Int
  cursor : Int
  gating : Nat → Int
  events : Nat → T
  publisher : ThreadId → Pc
  /-- the calls of `Claim`, in the order of their `fetch_add` -/
  claims : List Claimed
  /-- the calls of `Publish`, in the order of their `fetch_add` -/
  published : List Claimed
  /-- the value written for each sequence -/
  written : Int → Option T

inductive Action (T : Type)
  | claim (p : ThreadId) (delta : Nat)
  | check (p : ThreadId)
  | scan (p : ThreadId)
  /-- the slot `offset` places before the claimed sequence -/
  | write (p : ThreadId) (offset : Nat) (value : T)
  | finish (p : ThreadId)
  | synchronize (p : ThreadId)
  | publish (p : ThreadId)
  /-- a consumer moves its gating sequence -/
  | advance (gate : Nat) (sequence : Int)

def State.setPublisher (s : State T) (p : ThreadId) (pc : Pc) : State T :=
  { s with publisher := Function.update s.publisher p pc }

/-- One atomic step, with `gates` gating sequences. The test of the wait loop in
`SynchronizePublishing` is an action only when it succeeds. -/
def step (k : Nat) (longMax : Int) (gates : Nat) (s : State T) : Action T → Option (State T)
  | .claim p delta =>
    match s.publisher p with
    | .idle =>
      if 1 ≤ delta ∧ delta ≤ 2 ^ k ∧ s.lastClaimed + delta ≤ int64Max then
        let next := s.lastClaimed + delta
        some { s.setPublisher p (.check next delta) with
          lastClaimed := next
          claims := s.claims ++ [⟨p, next, delta⟩] }
      else none
    | _ => none
  | .check p =>
    match s.publisher p with
    | .check sequence delta =>
      if s.lastConsumer < minusSize sequence (2 ^ k) then
        some (s.setPublisher p (.scan sequence delta 0 longMax))
      else some (s.setPublisher p (.write sequence delta))
    | _ => none
  | .scan p =>
    match s.publisher p with
    | .scan sequence delta next minimum =>
      if next < gates then
        some (s.setPublisher p (.scan sequence delta (next + 1)
          (if minimum < s.gating next then minimum else s.gating next)))
      else if minimum < minusSize sequence (2 ^ k) then
        some (s.setPublisher p (.scan sequence delta 0 longMax))
      else some (s.setPublisher p (.write sequence delta))
    | _ => none
  | .write p offset value =>
    match s.publisher p with
    | .write sequence delta =>
      if offset < delta then
        some { s with
          events := Function.update s.events (ringIndex (2 ^ k) (sequence - offset)) value
          written := Function.update s.written (sequence - offset) (some value) }
      else none
    | _ => none
  | .finish p =>
    match s.publisher p with
    | .write sequence delta =>
      if ∀ offset < delta, (s.written (sequence - (offset : Nat))).isSome then
        some (s.setPublisher p (.synchronize sequence delta))
      else none
    | _ => none
  | .synchronize p =>
    match s.publisher p with
    | .synchronize sequence delta =>
      if s.cursor < minusSize sequence delta then none
      else some (s.setPublisher p (.publish sequence delta))
    | _ => none
  | .publish p =>
    match s.publisher p with
    | .publish sequence delta =>
      some { s.setPublisher p .idle with
        cursor := s.cursor + delta
        published := s.published ++ [⟨p, sequence, delta⟩] }
    | _ => none
  | .advance gate sequence =>
    if gate < gates ∧ s.gating gate ≤ sequence ∧ sequence ≤ s.cursor then
      some { s with gating := Function.update s.gating gate sequence }
    else none

def initial [Inhabited T] : State T where
  lastClaimed := kInitialCursorValue
  lastConsumer := kInitialCursorValue
  cursor := kInitialCursorValue
  gating := fun _ => kInitialCursorValue
  events := fun _ => default
  publisher := fun _ => .idle
  claims := []
  published := []
  written := fun _ => none

def machine [Inhabited T] (k : Nat) (longMax : Int) (gates : Nat) : Machine (State T) (Action T) :=
  ⟨initial, step k longMax gates⟩

end Dumbo.Disruptor.Sequencer
