import Dumbo.Lib.Machine
import Dumbo.Lib.Mask

/-!
# `context_spmc_queue`

The ready queue of `work_stealing`. The owner calls `push`, every thread calls `pop`, and one step is one
access of one thread to an atomic. The slots of an array are written by the owner only, so that `resize`
is one step with the store of the array it makes. There is memory for every array, and no context is
pinned.
-/

namespace Dumbo.Fiber.ContextSpmcQueue

open Transition

variable {Θ C : Type*}

structure Array (C : Type*) where
  size : Nat
  storage : Nat → Option C
  /-- contexts have been stored for the indices from `first` up to `last` -/
  first : Nat
  last : Nat

namespace Array

def create (size : Nat) : Array C := ⟨size, fun _ => none, 0, 0⟩

def push (a : Array C) (bottom : Nat) (ctx : Option C) : Array C :=
  { a with storage := Function.update a.storage (bottom % a.size) ctx, last := bottom + 1 }

def pop (a : Array C) (top : Nat) : Option C := a.storage (top % a.size)

/-- A difference of two values of type `size_t`. -/
def distance (bottom top : Nat) : Nat := (bottom + 2 ^ 64 - top) % 2 ^ 64

/-- The loop in `resize`, `n` times. -/
def copy (a tmp : Array C) (top n : Nat) : Array C :=
  (List.range n).foldl (fun tmp j => tmp.push ((top + j) % 2 ^ 64) (a.pop ((top + j) % 2 ^ 64))) tmp

def resize (a : Array C) (bottom top : Nat) : Array C :=
  a.copy { create (2 * a.size) with first := top, last := top } top (distance bottom top)

/-- An index with the slot of `i` has been stored. -/
def Stored (a : Array C) (i : Nat) : Prop := ∃ j, a.first ≤ j ∧ j < a.last ∧ j % a.size = i % a.size

end Array

/-- Where a thread stands. `popped` and `pushed` are how many calls had succeeded when `top_` and
`bottom_` were loaded. -/
inductive Pc (C : Type*)
  | idle
  | pushBottom (ctx : C)
  | pushTop (ctx : C) (bottom : Nat)
  | pushArray (ctx : C) (bottom top : Nat)
  | pushGrow (ctx : C) (bottom top array : Nat)
  | pushSlot (ctx : C) (bottom array : Nat)
  | pushStore (ctx : C) (bottom : Nat)
  | popTop
  | popBottom (top popped : Nat)
  | popArray (top popped pushed : Nat)
  | popSlot (top array popped pushed : Nat)
  | popExchange (top : Nat) (ctx : C) (popped pushed : Nat)
  deriving DecidableEq, Repr

/-- A `pop` that has returned null. -/
structure NullPop where
  /-- the pops that had succeeded when it loaded `top_` -/
  top : Nat
  /-- the pushes that had succeeded when it loaded `bottom_` -/
  bottom : Nat
  /-- the pops that had succeeded when it returned -/
  popped : Nat
  deriving DecidableEq, Repr

structure State (Θ C : Type*) where
  top : Nat
  bottom : Nat
  /-- `array_`; the arrays before it are in `old_arrays_` -/
  array : Nat
  arrays : Nat → Array C
  pc : Θ → Pc C
  /-- the contexts, in the order of `push` -/
  pushed : List C
  /-- the results of `pop`, in the order of the compare-exchanges -/
  popped : List C
  nulls : List NullPop
  /-- `pop` has read a slot that holds no context, and asks it for its type -/
  fault : Bool

namespace State

variable [DecidableEq Θ]

def goto (s : State Θ C) (t : Θ) (pc : Pc C) : State Θ C := { s with pc := Function.update s.pc t pc }

def setArray (s : State Θ C) (n : Nat) (a : Array C) : State Θ C :=
  { s with arrays := Function.update s.arrays n a }

/-- `array_.store`, after `resize` -/
def grow (s : State Θ C) (bottom top array : Nat) : State Θ C :=
  { s.setArray (s.array + 1) ((s.arrays array).resize bottom top) with array := s.array + 1 }

def returnNull (s : State Θ C) (t : Θ) (popped pushed : Nat) : State Θ C :=
  { s with nulls := s.nulls ++ [NullPop.mk popped pushed s.popped.length] }.goto t .idle

/-- The next step of a thread. -/
def go (s : State Θ C) (t : Θ) : Option (State Θ C) :=
  match s.pc t with
  | .idle => none
  | .pushBottom ctx => some (s.goto t (.pushTop ctx s.bottom))
  | .pushTop ctx bottom => some (s.goto t (.pushArray ctx bottom s.top))
  | .pushArray ctx bottom top => some (s.goto t (.pushGrow ctx bottom top s.array))
  | .pushGrow ctx bottom top array =>
    if (s.arrays array).size - 1 < Array.distance bottom top then
      some ((s.grow bottom top array).goto t (.pushSlot ctx bottom (s.array + 1)))
    else some (s.goto t (.pushSlot ctx bottom array))
  | .pushSlot ctx bottom array =>
    some ((s.setArray array ((s.arrays array).push bottom (some ctx))).goto t (.pushStore ctx bottom))
  | .pushStore ctx bottom =>
    some ({ s with bottom := (bottom + 1) % 2 ^ 64, pushed := s.pushed ++ [ctx] }.goto t .idle)
  | .popTop => some (s.goto t (.popBottom s.top s.popped.length))
  | .popBottom top popped =>
    if top < s.bottom then some (s.goto t (.popArray top popped s.pushed.length))
    else some (s.returnNull t popped s.pushed.length)
  | .popArray top popped pushed => some (s.goto t (.popSlot top s.array popped pushed))
  | .popSlot top array popped pushed =>
    match (s.arrays array).pop top with
    | some ctx => some (s.goto t (.popExchange top ctx popped pushed))
    | none => some { s with fault := true }
  | .popExchange top ctx popped pushed =>
    if s.top = top then
      some ({ s with top := (top + 1) % 2 ^ 64, popped := s.popped ++ [ctx] }.goto t .idle)
    else some (s.returnNull t popped pushed)

end State

inductive Action (Θ C : Type*)
  /-- the owner calls `push` -/
  | push (ctx : C)
  | pop (t : Θ)
  | go (t : Θ)
  deriving DecidableEq, Repr

variable [DecidableEq Θ]

def enabledStep (owner : Θ) (s : State Θ C) : Action Θ C → Option (State Θ C)
  | .push ctx =>
    match s.pc owner with
    | .idle => some (s.goto owner (.pushBottom ctx))
    | _ => none
  | .pop t =>
    match s.pc t with
    | .idle => some (s.goto t .popTop)
    | _ => none
  | .go t => s.go t

def step (owner : Θ) (s : State Θ C) (a : Action Θ C) : Option (State Θ C) :=
  if s.fault then none else enabledStep owner s a

/-- A `pop` that reads a slot finds one that has been stored in the array that it has loaded. -/
def ReadsStored (s : State Θ C) (a : Action Θ C) : Prop :=
  ∀ t top array popped pushed, a = .go t → s.pc t = .popSlot top array popped pushed →
    (s.arrays array).Stored top

def create : State Θ C :=
  ⟨0, 0, 0, fun _ => .create 1024, fun _ => .idle, [], [], [], false⟩

def machine (C : Type*) (owner : Θ) : Machine (State Θ C) (Action Θ C) := ⟨create, step owner⟩

end Dumbo.Fiber.ContextSpmcQueue
