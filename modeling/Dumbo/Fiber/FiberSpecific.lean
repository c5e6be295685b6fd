import Dumbo.Lib.Machine

/-!
# Fiber-specific storage

`fiber_specific_ptr` and the part of `context` that keeps its data: a map from the addresses of the
pointer objects, as `std::map`, to a value and a cleanup function. One fiber, from its start to its
termination. Beside it runs the law of the storage, which says what is stored under each address and
which values are due to be cleaned up.
-/

namespace Dumbo.Fiber.FiberSpecific

open Transition Std

variable {V Fn : Type}

/-! ### The data of a context -/

structure FssData (V Fn : Type) where
  vp : Option V
  cleanupFunction : Fn
  deriving DecidableEq, Repr

/-- A call of a cleanup function. -/
structure Cleanup (V Fn : Type) where
  function : Fn
  data : Option V
  deriving DecidableEq, Repr

def FssData.doCleanup (d : FssData V Fn) : Cleanup V Fn := ⟨d.cleanupFunction, d.vp⟩

structure Context (V Fn : Type) where
  fssData : TreeMap Nat (FssData V Fn)
  terminated : Bool
  /-- the calls of the cleanup functions -/
  cleanups : List (Cleanup V Fn)

namespace Context

def getFssData (c : Context V Fn) (key : Nat) : Option V := c.fssData[key]?.bind FssData.vp

/-- `insert` does not replace an element that is there, with or without a hint. -/
def setFssData (c : Context V Fn) (key : Nat) (cleanupFn : Fn) (data : Option V)
    (cleanupExisting : Bool) : Context V Fn :=
  match c.fssData[key]? with
  | some i =>
    let cleanups := if cleanupExisting then c.cleanups ++ [i.doCleanup] else c.cleanups
    if data.isSome then
      { c with cleanups := cleanups, fssData := c.fssData.insertIfNew key ⟨data, cleanupFn⟩ }
    else { c with cleanups := cleanups, fssData := c.fssData.erase key }
  | none => { c with fssData := c.fssData.insertIfNew key ⟨data, cleanupFn⟩ }

/-- The part of `set_terminated` that releases the data, in the order of the keys. -/
def setTerminated (c : Context V Fn) : Context V Fn where
  fssData := ∅
  terminated := true
  cleanups := c.cleanups ++ c.fssData.toList.map fun data => data.2.doCleanup

end Context

/-! ### The law of the storage -/

/-- A value under the address of a pointer object with a cleanup function. -/
structure Held (V Fn : Type) where
  key : Nat
  function : Fn
  value : V
  deriving DecidableEq, Repr

structure Law (V Fn : Type) where
  /-- what is stored -/
  held : List (Held V Fn)
  /-- the values that have been replaced or left behind, with the functions to clean them up -/
  due : List (Fn × V)
  released : List V
  /-- everything that has been stored -/
  stores : List V

namespace Law

def stored (l : Law V Fn) (key : Nat) : Option V :=
  (l.held.find? fun h => h.key = key).map Held.value

/-- What is stored under the other keys. -/
def others (l : Law V Fn) (key : Nat) : List (Held V Fn) := l.held.filter fun h => h.key ≠ key

def under (l : Law V Fn) (key : Nat) : List (Held V Fn) := l.held.filter fun h => h.key = key

def cleanUp (l : Law V Fn) (key : Nat) : Law V Fn :=
  { l with
    held := l.others key
    due := l.due ++ (l.under key).map fun h => (h.function, h.value) }

def release (l : Law V Fn) (key : Nat) : Law V Fn :=
  { l with
    held := l.others key
    released := l.released ++ (l.under key).map Held.value }

def store (l : Law V Fn) (key : Nat) (function : Fn) (value : V) : Law V Fn :=
  { l with held := ⟨key, function, value⟩ :: l.held, stores := l.stores ++ [value] }

def terminate (l : Law V Fn) : Law V Fn :=
  { l with held := [], due := l.due ++ l.held.map fun h => (h.function, h.value) }

variable [DecidableEq V]

def reset (l : Law V Fn) (key : Nat) (function : Fn) (t : Option V) : Law V Fn :=
  if l.stored key = t then l
  else match t with
    | some value => (l.cleanUp key).store key function value
    | none => l.cleanUp key

/-- A value that may be passed to `reset`: it has not been cleaned up and is under no other key. -/
def live (l : Law V Fn) (key : Nat) (value : V) : Bool :=
  value ∉ l.due.map Prod.snd ∧ value ∉ (l.others key).map Held.value

end Law

/-! ### The fiber -/

structure State (V Fn : Type) where
  context : Context V Fn
  /-- the pointer objects, each with its `cleanup_fn_` -/
  cleanupFn : Nat → Option Fn
  law : Law V Fn

inductive Op (V Fn : Type)
  | construct (address : Nat) (fn : Fn)
  | reset (address : Nat) (t : Option V)
  | release (address : Nat)
  | destroy (address : Nat)
  | terminate
  deriving DecidableEq, Repr

variable [DecidableEq V]

namespace State

/-- `fiber_specific_ptr::get` -/
def get (s : State V Fn) (address : Nat) : Option V := s.context.getFssData address

def reset (s : State V Fn) (address : Nat) (fn : Fn) (t : Option V) : State V Fn :=
  let c := s.get address
  { s with
    context := if c ≠ t then s.context.setFssData address fn t true else s.context
    law := s.law.reset address fn t }

def release (s : State V Fn) (address : Nat) (fn : Fn) : State V Fn :=
  { s with
    context := s.context.setFssData address fn none false
    law := s.law.release address }

/-- The destructor. -/
def destroy (s : State V Fn) (address : Nat) (fn : Fn) : State V Fn where
  context := s.context.setFssData address fn none true
  cleanupFn := Function.update s.cleanupFn address none
  law := s.law.cleanUp address

end State

def step (s : State V Fn) (op : Op V Fn) : Option (State V Fn) :=
  if s.context.terminated then none
  else match op with
    | .construct address fn =>
      match s.cleanupFn address with
      | none => some { s with cleanupFn := Function.update s.cleanupFn address (some fn) }
      | some _ => none
    | .reset address t =>
      match s.cleanupFn address with
      | some fn => if t.all (s.law.live address) then some (s.reset address fn t) else none
      | none => none
    | .release address => (s.cleanupFn address).map fun fn => s.release address fn
    | .destroy address => (s.cleanupFn address).map fun fn => s.destroy address fn
    | .terminate => some { s with context := s.context.setTerminated, law := s.law.terminate }

def machine (V Fn : Type) [DecidableEq V] : Machine (State V Fn) (Op V Fn) :=
  ⟨⟨⟨∅, false, []⟩, fun _ => none, ⟨[], [], [], []⟩⟩, step⟩

end Dumbo.Fiber.FiberSpecific
