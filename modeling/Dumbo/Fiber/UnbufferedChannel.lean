import Dumbo.Fiber.BufferedChannel

/-!
# `unbuffered_channel`

The channel between the fibers of one thread. A producer that finds the slot empty offers its value there
and is suspended until a consumer has taken it. Calls are numbered, so that a value can be told by the
call that offers it.
-/

namespace Dumbo.Fiber.UnbufferedChannel

open Transition

variable {F α : Type*}

inductive Op (α : Type*)
  | push (value : α)
  | pushWaitUntil (value : α) (timeoutTime : Nat)
  | pop
  | popWaitUntil (timeoutTime : Nat)
  | valuePop
  | close
  deriving DecidableEq, Repr

namespace Op

def side : Op α → Option Side
  | push _ | pushWaitUntil _ _ => some .producers
  | pop | popWaitUntil _ | valuePop => some .consumers
  | close => none

def timeoutTime : Op α → Option Nat
  | pushWaitUntil _ timeoutTime | popWaitUntil timeoutTime => some timeoutTime
  | _ => none

def value : Op α → Option α
  | push value | pushWaitUntil value _ => some value
  | _ => none

end Op

structure Call (α : Type*) where
  op : Op α
  id : Nat
  /-- the producer is suspended until its value has been consumed -/
  offering : Bool
  deriving DecidableEq, Repr

instance : Wait (Call α) Side where
  queue c := if c.offering then none else c.op.side
  deadline c := c.op.timeoutTime

/-- The slot on the stack of a producer, with the number of its call. -/
structure Slot (F α : Type*) where
  value : α
  ctx : F
  id : Nat
  deriving DecidableEq, Repr

inductive Answer (α : Type*)
  | status (s : ChannelOpStatus)
  /-- `success`, with the value that has been popped and the call that offered it -/
  | value (v : α) (source : Nat)
  /-- the `fiber_error` of `value_pop` -/
  | fiberError
  deriving DecidableEq, Repr

/-- A call that has returned. -/
structure Return (F α : Type*) where
  fiber : F
  op : Op α
  id : Nat
  answer : Answer α

structure State (F α : Type*) where
  slot : Option (Slot F α)
  closed : Bool
  fibers : Fibers F Side (Call α)
  /-- the calls so far; a call is numbered by its place -/
  calls : List (Op α)
  log : List (Return F α)

namespace State

def ret (s : State F α) (f : F) (c : Call α) (answer : Answer α) : State F α :=
  { s with fibers := s.fibers.finish, log := s.log ++ [⟨f, c.op, c.id, answer⟩] }

variable [DecidableEq F]

def park (s : State F α) (f : F) (c : Call α) : State F α :=
  { s with fibers := s.fibers.park f c }

/-- `try_push_` has stored the producer's slot: notify one waiting consumer, and suspend. -/
def offer (s : State F α) (f : F) (c : Call α) (value : α) : State F α :=
  { s with
    slot := some ⟨value, f, c.id⟩
    fibers := (s.fibers.wakeOne .consumers).park f { c with offering := true } }

/-- The loop of `push` and `push_wait_until`. -/
def pushLoop (s : State F α) (f : F) (c : Call α) (value : α) : State F α :=
  if s.closed then s.ret f c (.status .closed)
  else match s.slot with
    | none => s.offer f c value
    | some _ =>
      if s.closed then s.ret f c (.status .closed)
      else if s.slot.isNone then s
      else s.park f c

/-- `try_pop_` has cleared the slot: notify one waiting producer, and resume the one whose value has been
consumed. -/
def consume (s : State F α) (slot : Slot F α) : State F α :=
  { s with slot := none, fibers := (s.fibers.wakeOne .producers).setReady slot.ctx }

/-- The loop of `pop`, `pop_wait_until` and `value_pop`, which differ in what they do at the end of
the channel. -/
def popLoop (s : State F α) (f : F) (c : Call α) (atEnd : Answer α) : State F α :=
  match s.slot with
  | some slot => (s.consume slot).ret f c (.value slot.value slot.id)
  | none =>
    if s.closed then s.ret f c atEnd
    else if s.slot.isSome then s
    else s.park f c

def close (s : State F α) (f : F) (c : Call α) : State F α :=
  { s with
    closed := true
    fibers := (s.fibers.wakeAll .producers).wakeAll .consumers }.ret f c (.status .success)

/-- One round of a call. -/
def iterate (s : State F α) (f : F) (c : Call α) : State F α :=
  match c.op with
  | .push value => s.pushLoop f c value
  | .pushWaitUntil value _ => s.pushLoop f c value
  | .pop => s.popLoop f c (.status .closed)
  | .popWaitUntil _ => s.popLoop f c (.status .closed)
  | .valuePop => s.popLoop f c .fiberError
  | .close => s.close f c

/-- `slot_.compare_exchange_strong( own_slot, nil_slot)` -/
def clearSlot (s : State F α) (c : Call α) : State F α :=
  match s.slot with
  | some slot => if slot.id = c.id then { s with slot := none } else s
  | none => s

/-- `wait_until` has returned false. -/
def timeOut (s : State F α) (f : F) (c : Call α) : State F α :=
  let s := if c.offering then s.clearSlot c else s
  { s with fibers := (s.fibers.waitUnlink f).pick f }.ret f c (.status .timeout)

/-- A fiber goes on behind `suspend` or `wait_until`. -/
def resume (s : State F α) (f : F) (c : Call α) : State F α :=
  if s.fibers.inTime c then
    if c.offering then { s with fibers := s.fibers.pick f }.ret f c (.status .success)
    else { s with fibers := (s.fibers.pick f).run f c }
  else s.timeOut f c

def call (s : State F α) (f : F) (op : Op α) : State F α :=
  { s with fibers := s.fibers.run f ⟨op, s.calls.length, false⟩, calls := s.calls ++ [op] }

end State

inductive Action (F α : Type*)
  | call (f : F) (op : Op α)
  | iterate
  /-- the dispatcher finds the deadline of a fiber passed -/
  | expire (f : F)
  /-- the scheduler picks a ready fiber -/
  | resume (f : F)
  | tick (n : Nat)
  deriving DecidableEq, Repr

variable [DecidableEq F]

def step (s : State F α) : Action F α → Option (State F α)
  | .call f op =>
    match s.fibers.running, s.fibers.mode f with
    | none, .outside => some (s.call f op)
    | _, _ => none
  | .iterate =>
    match s.fibers.running with
    | some (f, c) => some (s.iterate f c)
    | none => none
  | .expire f =>
    match s.fibers.running, s.fibers.mode f with
    | none, .suspended c =>
      if s.fibers.overdue c then some { s with fibers := s.fibers.expire f c } else none
    | _, _ => none
  | .resume f =>
    match s.fibers.running, s.fibers.mode f with
    | none, .expired c | none, .notified c => some (s.resume f c)
    | _, _ => none
  | .tick n => some { s with fibers := s.fibers.tick n }

/-- What a step finds and does. -/
inductive Stepped (s : State F α) : Action F α → State F α → Prop
  | call {f op} : s.fibers.running = none → s.fibers.mode f = .outside →
      Stepped s (.call f op) (s.call f op)
  | iterate {f c} : s.fibers.running = some (f, c) → Stepped s .iterate (s.iterate f c)
  | expire {f c} : s.fibers.running = none → s.fibers.mode f = .suspended c →
      s.fibers.overdue c = true → Stepped s (.expire f) { s with fibers := s.fibers.expire f c }
  | resume {f c} : s.fibers.running = none →
      s.fibers.mode f = .expired c ∨ s.fibers.mode f = .notified c →
      Stepped s (.resume f) (s.resume f c)
  | tick (n) : Stepped s (.tick n) { s with fibers := s.fibers.tick n }

theorem stepped {s t : State F α} {a : Action F α} (hs : step s a = some t) : Stepped s a t := by
  cases a with
  | call f op =>
    simp only [step] at hs
    split at hs
    · rename_i hrunning hmode
      rw [Option.some.injEq] at hs
      exact hs ▸ .call hrunning hmode
    · exact absurd hs (by simp)
  | iterate =>
    simp only [step] at hs
    split at hs
    · rename_i hrunning
      rw [Option.some.injEq] at hs
      exact hs ▸ .iterate hrunning
    · exact absurd hs (by simp)
  | expire f =>
    simp only [step] at hs
    split at hs
    · rename_i hrunning hmode
      rw [Option.ite_none_right_eq_some, Option.some.injEq] at hs
      exact hs.2 ▸ .expire hrunning hmode hs.1
    · exact absurd hs (by simp)
  | resume f =>
    simp only [step] at hs
    split at hs
    · rename_i hrunning hmode
      rw [Option.some.injEq] at hs
      exact hs ▸ .resume hrunning (.inl hmode)
    · rename_i hrunning hmode
      rw [Option.some.injEq] at hs
      exact hs ▸ .resume hrunning (.inr hmode)
    · exact absurd hs (by simp)
  | tick n =>
    simp only [step, Option.some.injEq] at hs
    exact hs ▸ .tick n

def machine (clock : Nat) : Machine (State F α) (Action F α) :=
  ⟨⟨none, false, .initial clock, [], []⟩, step⟩

end Dumbo.Fiber.UnbufferedChannel
