import Dumbo.Disruptor.Sequencer

/-!
# The claim strategies

`SingleThreadedStrategy<N>` and `MultiThreadedStrategy<N>`: `IncrementAndGet`, with its wait loop, and
`HasAvailableCapacity`, which keeps the minimum that it has found. A sum that would leave the range of
`int64_t` is not a step.
-/

namespace Dumbo.Disruptor

open Transition
open Sequencer (int64Max minusSize)

/-- `long` has 64 bits on Linux and 32 bits on Windows. -/
inductive DataModel
  | lp64 | llp64
  deriving DecidableEq, Repr

/-- `LONG_MAX` -/
def DataModel.longMax : DataModel → Int
  | .lp64 => int64Max
  | .llp64 => 2147483647

/-- `a + n` for an `int64_t` and a `size_t`. -/
def plusSize (a : Int) (n : Nat) : Int := (a + n).bmod 18446744073709551616

/-- A `size_t` as an `int64_t`. -/
def toInt64 (n : Nat) : Int := (n : Int).bmod 18446744073709551616

structure Sequence where
  sequence : Int
  deriving DecidableEq, Repr

namespace Sequence

def setSequence (_ : Sequence) (value : Int) : Sequence := ⟨value⟩

def incrementAndGet (s : Sequence) (increment : Int) : Sequence × Int :=
  let value := (s.sequence + increment).bmod 18446744073709551616
  (⟨value⟩, value)

end Sequence

/-- What the two strategies have in common. -/
class ClaimStrategy (S : Type) where
  create : S
  lastClaimed : S → Int
  lastConsumer : S → Int
  /-- `IncrementAndGet` up to its first test -/
  increment : S → Nat → S × Int
  hasAvailableCapacity : (longMax : Int) → (N : Nat) → S → (dependents : List Int) → S × Bool

structure SingleThreadedStrategy where
  lastClaimedSequence : Int
  lastConsumerSequence : Int
  deriving DecidableEq, Repr

namespace SingleThreadedStrategy

def increment (s : SingleThreadedStrategy) (delta : Nat) : SingleThreadedStrategy × Int :=
  let nextSequence := plusSize s.lastClaimedSequence delta
  ({ s with lastClaimedSequence := nextSequence }, nextSequence)

def hasAvailableCapacity (longMax : Int) (N : Nat) (s : SingleThreadedStrategy)
    (dependents : List Int) : SingleThreadedStrategy × Bool :=
  let wrapPoint := minusSize (s.lastClaimedSequence + 1) N
  if wrapPoint > s.lastConsumerSequence then
    let minSequence := getMinimumSequence longMax dependents
    ({ s with lastConsumerSequence := minSequence }, !(wrapPoint > minSequence))
  else (s, true)

instance : ClaimStrategy SingleThreadedStrategy where
  create := ⟨kInitialCursorValue, kInitialCursorValue⟩
  lastClaimed := lastClaimedSequence
  lastConsumer := lastConsumerSequence
  increment := increment
  hasAvailableCapacity := hasAvailableCapacity

end SingleThreadedStrategy

structure MultiThreadedStrategy where
  lastClaimedSequence : Sequence
  lastConsumerSequence : Sequence
  deriving DecidableEq, Repr

namespace MultiThreadedStrategy

def increment (s : MultiThreadedStrategy) (delta : Nat) : MultiThreadedStrategy × Int :=
  let (sequence, nextSequence) := s.lastClaimedSequence.incrementAndGet (toInt64 delta)
  ({ s with lastClaimedSequence := sequence }, nextSequence)

def hasAvailableCapacity (longMax : Int) (N : Nat) (s : MultiThreadedStrategy)
    (dependents : List Int) : MultiThreadedStrategy × Bool :=
  let wrapPoint := minusSize (s.lastClaimedSequence.sequence + 1) N
  if wrapPoint > s.lastConsumerSequence.sequence then
    let minSequence := getMinimumSequence longMax dependents
    ({ s with lastConsumerSequence := s.lastConsumerSequence.setSequence minSequence },
      !(wrapPoint > minSequence))
  else (s, true)

instance : ClaimStrategy MultiThreadedStrategy where
  create := ⟨⟨kInitialCursorValue⟩, ⟨kInitialCursorValue⟩⟩
  lastClaimed s := s.lastClaimedSequence.sequence
  lastConsumer s := s.lastConsumerSequence.sequence
  increment := increment
  hasAvailableCapacity := hasAvailableCapacity

end MultiThreadedStrategy

namespace ClaimStrategy

variable {S P : Type} [ClaimStrategy S] [DecidableEq P]

/-- `IncrementAndGet` enters its wait loop. -/
def enters (N : Nat) (s : S) (nextSequence : Int) : Bool := lastConsumer s < minusSize nextSequence N

/-- The test of the wait loop. -/
def goesOn (longMax : Int) (N : Nat) (dependents : List Int) (nextSequence : Int) : Bool :=
  getMinimumSequence longMax dependents < minusSize nextSequence N

/-- `IncrementAndGet(delta)` waits, as long as the sequences of the dependents stay where they are. -/
def waits (longMax : Int) (N : Nat) (s : S) (dependents : List Int) (delta : Nat) : Bool :=
  let (s', nextSequence) := increment s delta
  enters N s' nextSequence && goesOn longMax N dependents nextSequence

/-! ### Publishers and consumers -/

inductive Pc
  | idle
  /-- in the wait loop of `IncrementAndGet` -/
  | waiting (nextSequence : Int)
  deriving DecidableEq, Repr

inductive Answer
  /-- `IncrementAndGet` has returned -/
  | claimed (sequence : Int)
  | hasAvailableCapacity (answer : Bool)
  deriving DecidableEq, Repr

structure State (S P : Type) where
  strategy : S
  gating : List Int
  publisher : P → Pc
  answers : List (P × Answer)

inductive Action (P : Type)
  | incrementAndGet (p : P) (delta : Nat)
  /-- one test of the wait loop -/
  | poll (p : P)
  | hasAvailableCapacity (p : P)
  /-- a consumer moves its sequence -/
  | advance (gate : Nat) (sequence : Int)
  deriving DecidableEq, Repr

namespace State

def claimed (s : State S P) (p : P) (nextSequence : Int) : State S P :=
  { s with
    publisher := Function.update s.publisher p .idle
    answers := s.answers ++ [(p, .claimed nextSequence)] }

def wait (s : State S P) (p : P) (nextSequence : Int) : State S P :=
  { s with publisher := Function.update s.publisher p (.waiting nextSequence) }

end State

omit [ClaimStrategy S] in
theorem State.wait_publisher (s : State S P) (p : P) (next : Int) :
    (s.wait p next).publisher = Function.update s.publisher p (.waiting next) := rfl

omit [ClaimStrategy S] in
theorem State.claimed_publisher (s : State S P) (p : P) (next : Int) :
    (s.claimed p next).publisher = Function.update s.publisher p .idle := rfl

def step (longMax : Int) (N : Nat) (s : State S P) : Action P → Option (State S P)
  | .incrementAndGet p delta =>
    match s.publisher p with
    | .idle =>
      if 1 ≤ delta ∧ lastClaimed s.strategy + delta ≤ int64Max then
        let (strategy, nextSequence) := increment s.strategy delta
        let s' := { s with strategy := strategy }
        some (if enters N strategy nextSequence then s'.wait p nextSequence
          else s'.claimed p nextSequence)
      else none
    | .waiting _ => none
  | .poll p =>
    match s.publisher p with
    | .waiting nextSequence =>
      some (if goesOn longMax N s.gating nextSequence then s else s.claimed p nextSequence)
    | .idle => none
  | .hasAvailableCapacity p =>
    match s.publisher p with
    | .idle =>
      if lastClaimed s.strategy + 1 ≤ int64Max then
        let (strategy, answer) := hasAvailableCapacity longMax N s.strategy s.gating
        some { s with
          strategy := strategy
          answers := s.answers ++ [(p, .hasAvailableCapacity answer)] }
      else none
    | .waiting _ => none
  | .advance gate sequence =>
    if s.gating[gate]?.any (· ≤ sequence) ∧ sequence ≤ int64Max then
      some { s with gating := s.gating.set gate sequence }
    else none

/-- A queue whose gating sequences are `gating` when the run begins. -/
def machine (S P : Type) [ClaimStrategy S] [DecidableEq P] (longMax : Int) (N : Nat)
    (gating : List Int) : Machine (State S P) (Action P) :=
  ⟨⟨create, gating, fun _ => .idle, []⟩, step longMax N⟩

end ClaimStrategy

end Dumbo.Disruptor
