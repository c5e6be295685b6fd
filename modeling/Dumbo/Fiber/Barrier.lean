import Dumbo.Fiber.MonitoredWaits

/-!
# Barriers

A waiter is woken by the call that completes its group. Before it returns it compares the cycle it has
arrived in with the present one, and a cycle is one bit.
-/

namespace Dumbo.Fiber

open Transition Monitored

structure Barrier where
  initial : Nat
  current : Nat
  cycle : Bool
  /-- the calls so far -/
  arrivals : Nat
  deriving DecidableEq, Repr

namespace Barrier

/-- The constructor, which throws for a count of zero. -/
def create (initial : Nat) : Option Barrier :=
  if initial = 0 then none else some ⟨initial, initial, true, 0⟩

/-- The cycle in which a call waits; `ticket` numbers the calls in the order of their arrival. -/
structure Local where
  cycle : Bool
  ticket : Nat
  deriving DecidableEq, Repr

/-- What a call returns, when so many calls have arrived. -/
structure Result where
  ticket : Nat
  value : Bool
  arrivals : Nat
  deriving DecidableEq, Repr

/-- `wait` up to its return or its wait. -/
def enter (b : Barrier) : Barrier × Outcome Unit Local Result :=
  let cycle := b.cycle
  let ticket := b.arrivals
  let b := { b with current := b.current - 1, arrivals := b.arrivals + 1 }
  if b.current = 0 then
    ({ b with cycle := !b.cycle, current := b.initial }, .returns ⟨ticket, true, b.arrivals⟩ true)
  else (b, .waits ⟨cycle, ticket⟩)

def wait : Methods Barrier Unit Local Result where
  enter _ b := b.enter
  pred l b := l.cycle != b.cycle
  timeoutTime _ := none
  leave l _ b := (b, ⟨l.ticket, false, b.arrivals⟩)

/-- The group of a call, in the order of arrival. -/
def group (initial ticket : Nat) : Nat := ticket / initial

variable {F : Type*} [DecidableEq F]

abbrev State (F : Type*) := Monitored.State F Unit Barrier Unit Local Result

abbrev Action (F : Type*) := Monitored.Action F Unit Unit

def machine (F : Type*) [DecidableEq F] (b : Barrier) (clock : Nat) : Machine (State F) (Action F) :=
  Monitored.machine F wait (fun _ => b) clock

end Barrier

end Dumbo.Fiber
