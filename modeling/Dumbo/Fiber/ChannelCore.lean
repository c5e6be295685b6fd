import Dumbo.Fiber.BufferedChannel
import Dumbo.Lib.Machine
import Dumbo.Lib.Mask

/-!
# The lock-free core of `buffered_channel`

`try_push_` and `try_pop_` by any number of threads. One step is one access of one thread to an atomic
or to the storage of a slot; `diff` wraps as the indices do.
-/

namespace Dumbo.Fiber.ChannelCore

open Transition BufferedChannel

variable {Θ α : Type*}

/-- Where a thread stands. `seen` is how many calls had won an index when `idx` was loaded, `index` how
many had when the thread won its own. -/
inductive Pc (α : Type*)
  | idle
  | pushLoad (value : α)
  | pushCycle (value : α) (idx seen : Nat)
  | pushExchange (value : α) (idx seen : Nat)
  | pushWrite (value : α) (idx index : Nat)
  | pushStore (idx index : Nat)
  | popLoad
  | popCycle (idx seen : Nat)
  | popExchange (idx seen : Nat)
  | popRead (idx index : Nat)
  | popStore (value : Option α) (idx index : Nat)
  deriving DecidableEq, Repr

structure State (Θ α : Type*) where
  ring : BufferedChannel.Ring α
  pc : Θ → Pc α
  /-- the values of the pushes, in the order of their compare-exchanges -/
  pushed : List α
  /-- the pops that have won an index -/
  popped : Nat
  /-- what the pops have returned, with their indices -/
  returned : List (Nat × Option α)
  /-- the cycles, as they are without the wrap -/
  turn : Nat → Nat

namespace State

variable [DecidableEq Θ]

def goto (s : State Θ α) (t : Θ) (pc : Pc α) : State Θ α := { s with pc := Function.update s.pc t pc }

def cycle (s : State Θ α) (idx : Nat) : Nat := (s.ring.slots (s.ring.position idx)).cycle

def storage (s : State Θ α) (idx : Nat) : Option α := (s.ring.slots (s.ring.position idx)).storage

/-- Where `diff` leads. -/
def branch (diff : Int) (equal less greater : Pc α) : Pc α :=
  if diff = 0 then equal else if diff < 0 then less else greater

/-- The compare-exchange in `try_push_` has succeeded. -/
def winPush (s : State Θ α) (t : Θ) (value : α) (idx : Nat) : State Θ α :=
  { s with
    ring := { s.ring with producerIdx := (idx + 1) % sizeMax }
    pushed := s.pushed ++ [value] }.goto t (.pushWrite value idx s.pushed.length)

/-- The compare-exchange in `try_value_pop_` has succeeded. -/
def winPop (s : State Θ α) (t : Θ) (idx : Nat) : State Θ α :=
  { s with
    ring := { s.ring with consumerIdx := (idx + 1) % sizeMax }
    popped := s.popped + 1 }.goto t (.popRead idx s.popped)

def write (s : State Θ α) (idx : Nat) (value : α) : State Θ α :=
  { s with ring := s.ring.setSlot (s.ring.position idx) ⟨s.cycle idx, some value⟩ }

/-- `s->cycle.store`, where the cycle is `turn` without the wrap. -/
def store (s : State Θ α) (idx cycle turn : Nat) : State Θ α :=
  { s with
    ring := s.ring.setSlot (s.ring.position idx) ⟨cycle % sizeMax, s.storage idx⟩
    turn := Function.update s.turn (s.ring.position idx) turn }

/-- The next step of a thread, whose compare-exchange may fail spuriously. -/
def go (s : State Θ α) (t : Θ) (spurious : Bool) : Option (State Θ α) :=
  match s.pc t with
  | .idle => none
  | .pushLoad value => some (s.goto t (.pushCycle value s.ring.producerIdx s.pushed.length))
  | .pushCycle value idx seen =>
    some (s.goto t (branch (difference (s.cycle idx) idx) (.pushExchange value idx seen) .idle
      (.pushLoad value)))
  | .pushExchange value idx _ =>
    if spurious = false ∧ s.ring.producerIdx = idx then some (s.winPush t value idx)
    else some (s.goto t (.pushCycle value s.ring.producerIdx s.pushed.length))
  | .pushWrite value idx index => some ((s.write idx value).goto t (.pushStore idx index))
  | .pushStore idx index => some ((s.store idx (idx + 1) (index + 1)).goto t .idle)
  | .popLoad => some (s.goto t (.popCycle s.ring.consumerIdx s.popped))
  | .popCycle idx seen =>
    some (s.goto t (branch (difference (s.cycle idx) ((idx + 1) % sizeMax)) (.popExchange idx seen) .idle
      .popLoad))
  | .popExchange idx _ =>
    if spurious = false ∧ s.ring.consumerIdx = idx then some (s.winPop t idx)
    else some (s.goto t (.popCycle s.ring.consumerIdx s.popped))
  | .popRead idx index => some (s.goto t (.popStore (s.storage idx) idx index))
  | .popStore value idx index =>
    some ({ s.store idx (idx + s.ring.capacity) (index + s.ring.capacity) with
      returned := s.returned ++ [(index, value)] }.goto t .idle)

end State

inductive Action (Θ α : Type*)
  | tryPush (t : Θ) (value : α)
  | tryPop (t : Θ)
  | go (t : Θ) (spurious : Bool)
  deriving DecidableEq, Repr

variable [DecidableEq Θ]

def step (s : State Θ α) : Action Θ α → Option (State Θ α)
  | .tryPush t value =>
    match s.pc t with
    | .idle => some (s.goto t (.pushLoad value))
    | _ => none
  | .tryPop t =>
    match s.pc t with
    | .idle => some (s.goto t .popLoad)
    | _ => none
  | .go t spurious => s.go t spurious

def create (ring : BufferedChannel.Ring α) : State Θ α := ⟨ring, fun _ => .idle, [], 0, [], fun i => i⟩

/-- The channel that the constructor makes for `2 ^ k` slots. -/
def machine (Θ α : Type*) [DecidableEq Θ] (k : Nat) : Machine (State Θ α) (Action Θ α) :=
  ⟨create ⟨0, 0, fun i => ⟨i, none⟩, 2 ^ k⟩, step⟩

end Dumbo.Fiber.ChannelCore
