import Dumbo.Lib.WaitQueues

/-!
# `buffered_channel`

The channel between the fibers of one thread. The indices and the cycles are of type `size_t`; a
difference of two of them is taken after their conversion to `intptr_t`. Where the fibers run on one
thread a compare-exchange succeeds. One step of a call is one round of its loop.
-/

namespace Dumbo.Fiber

open Transition

inductive ChannelOpStatus
  | success | empty | full | closed | timeout
  deriving DecidableEq, Repr

/-- `waiting_producers_` and `waiting_consumers_` -/
inductive Side
  | producers | consumers
  deriving DecidableEq, Repr

theorem close_queue {F ω : Type*} [Wait ω Side] [DecidableEq F] (fibers : Fibers F Side ω) (side : Side) :
    ((fibers.wakeAll .producers).wakeAll .consumers).queue side = [] := by
  rw [Fibers.wakeAll_queue, Fibers.wakeAll_queue]
  cases side <;> rfl

namespace BufferedChannel

variable {α : Type*}

/-! ### The ring of slots -/

structure Slot (α : Type*) where
  cycle : Nat
  storage : Option α
  deriving DecidableEq, Repr

structure Ring (α : Type*) where
  producerIdx : Nat
  consumerIdx : Nat
  slots : Nat → Slot α
  capacity : Nat

/-- The end of the range of `size_t`. -/
def sizeMax : Nat := 18446744073709551616

/-- `static_cast< intptr_t >( cycle) - static_cast< intptr_t >( idx)` -/
def difference (cycle idx : Nat) : Int := ((cycle : Int) - idx).bmod 18446744073709551616

inductive TryPush (α : Type*)
  | success (ring : Ring α)
  | full
  /-- the loop goes round again -/
  | again

inductive TryPop (α : Type*)
  | success (value : Option α) (ring : Ring α)
  | empty
  /-- the loop goes round again -/
  | again

namespace Ring

/-- The position of an index in the array. -/
def position (r : Ring α) (idx : Nat) : Nat := idx &&& (r.capacity - 1)

def isFull (r : Ring α) : Bool :=
  0 > difference (r.slots (r.position r.producerIdx)).cycle r.producerIdx

def isEmpty (r : Ring α) : Bool :=
  0 > difference (r.slots (r.position r.consumerIdx)).cycle ((r.consumerIdx + 1) % sizeMax)

def setSlot (r : Ring α) (position : Nat) (slot : Slot α) : Ring α :=
  { r with slots := Function.update r.slots position slot }

def tryPush (r : Ring α) (value : α) : TryPush α :=
  let idx := r.producerIdx
  let diff := difference (r.slots (r.position idx)).cycle idx
  if diff = 0 then
    .success ({ r with producerIdx := (idx + 1) % sizeMax }.setSlot (r.position idx)
      ⟨(idx + 1) % sizeMax, some value⟩)
  else if diff < 0 then .full
  else .again

/-- `try_value_pop_`, and what its callers do with the slot. -/
def tryPop (r : Ring α) : TryPop α :=
  let idx := r.consumerIdx
  let slot := r.slots (r.position idx)
  let diff := difference slot.cycle ((idx + 1) % sizeMax)
  if diff = 0 then
    .success slot.storage ({ r with consumerIdx := (idx + 1) % sizeMax }.setSlot (r.position idx)
      { slot with cycle := (idx + r.capacity) % sizeMax })
  else if diff < 0 then .empty
  else .again

/-- The constructor, which throws on a capacity that is no power of two. -/
def create (capacity : Nat) : Option (Ring α) :=
  if capacity = 0 ∨ capacity &&& (capacity - 1) ≠ 0 then none
  else some ⟨0, 0, fun i => ⟨i, none⟩, capacity⟩

end Ring

/-! ### The calls -/

inductive Op (α : Type*)
  | push (value : α)
  | pushWaitUntil (value : α) (timeoutTime : Nat)
  | tryPush (value : α)
  | pop
  | popWaitUntil (timeoutTime : Nat)
  | valuePop
  | tryPop
  | close
  deriving DecidableEq, Repr

instance : Wait (Op α) Side where
  queue
    | .push _ | .pushWaitUntil _ _ => some .producers
    | .pop | .popWaitUntil _ | .valuePop => some .consumers
    | .tryPush _ | .tryPop | .close => none
  deadline
    | .pushWaitUntil _ timeoutTime | .popWaitUntil timeoutTime => some timeoutTime
    | _ => none

inductive Answer (α : Type*)
  | status (s : ChannelOpStatus)
  /-- `success`, with the value that has been popped -/
  | value (v : Option α)
  /-- the `fiber_error` of `value_pop` -/
  | fiberError
  deriving DecidableEq, Repr

/-- A call that has returned. -/
structure Return (F α : Type*) where
  fiber : F
  op : Op α
  answer : Answer α

structure State (F α : Type*) where
  ring : Ring α
  closed : Bool
  fibers : Fibers F Side (Op α)
  log : List (Return F α)

variable {F : Type*} [DecidableEq F]

namespace State

def ret (s : State F α) (f : F) (op : Op α) (answer : Answer α) : State F α :=
  { s with fibers := s.fibers.finish, log := s.log ++ [⟨f, op, answer⟩] }

def park (s : State F α) (f : F) (op : Op α) : State F α :=
  { s with fibers := s.fibers.park f op }

/-- Notify one waiting fiber. -/
def notify (s : State F α) (side : Side) : State F α :=
  { s with fibers := s.fibers.wakeOne side }

/-- The loop of `push` and `push_wait_until`. -/
def pushLoop (s : State F α) (f : F) (op : Op α) (value : α) : State F α :=
  if s.closed then s.ret f op (.status .closed)
  else match s.ring.tryPush value with
    | .success ring => ({ s with ring := ring }.notify .consumers).ret f op (.status .success)
    | .full =>
      if s.closed then s.ret f op (.status .closed)
      else if ¬ s.ring.isFull then s
      else s.park f op
    | .again => s

def tryPush (s : State F α) (f : F) (value : α) : State F α :=
  if s.closed then s.ret f (.tryPush value) (.status .closed)
  else match s.ring.tryPush value with
    | .success ring => { s with ring := ring }.ret f (.tryPush value) (.status .success)
    | .full => s.ret f (.tryPush value) (.status .full)
    | .again => s

/-- The loop of `pop`, `pop_wait_until` and `value_pop`, which differ in what they do at the end of
the channel. -/
def popLoop (s : State F α) (f : F) (op : Op α) (atEnd : Answer α) : State F α :=
  match s.ring.tryPop with
  | .success value ring => ({ s with ring := ring }.notify .producers).ret f op (.value value)
  | .empty =>
    if s.closed then s.ret f op atEnd
    else if ¬ s.ring.isEmpty then s
    else s.park f op
  | .again => s

def tryPop (s : State F α) (f : F) : State F α :=
  match s.ring.tryPop with
  | .success value ring => { s with ring := ring }.ret f .tryPop (.value value)
  | .empty => s.ret f .tryPop (.status (if s.closed then .closed else .empty))
  | .again => s

def close (s : State F α) (f : F) : State F α :=
  { s with
    closed := true
    fibers := (s.fibers.wakeAll .producers).wakeAll .consumers }.ret f .close (.status .success)

/-- One round of a call. -/
def iterate (s : State F α) (f : F) (op : Op α) : State F α :=
  match op with
  | .push value => s.pushLoop f op value
  | .pushWaitUntil value _ => s.pushLoop f op value
  | .tryPush value => s.tryPush f value
  | .pop => s.popLoop f op (.status .closed)
  | .popWaitUntil _ => s.popLoop f op (.status .closed)
  | .valuePop => s.popLoop f op .fiberError
  | .tryPop => s.tryPop f
  | .close => s.close f

/-- A fiber goes on behind `suspend` or `wait_until`. -/
def resume (s : State F α) (f : F) (op : Op α) : State F α :=
  if s.fibers.inTime op then { s with fibers := (s.fibers.pick f).run f op }
  else { s with fibers := (s.fibers.waitUnlink f).pick f }.ret f op (.status .timeout)

end State

inductive Action (F α : Type*)
  | call (f : F) (op : Op α)
  | iterate
  /-- the dispatcher finds the deadline of a fiber passed -/
  | expire (f : F)
  /-- the scheduler picks a ready fiber -/
  | resume (f : F)
  | tick (n : Nat)
  deriving DecidableEq, Repr

def step (s : State F α) : Action F α → Option (State F α)
  | .call f op =>
    match s.fibers.running, s.fibers.mode f with
    | none, .outside => some { s with fibers := s.fibers.run f op }
    | _, _ => none
  | .iterate =>
    match s.fibers.running with
    | some (f, op) => some (s.iterate f op)
    | none => none
  | .expire f =>
    match s.fibers.running, s.fibers.mode f with
    | none, .suspended op =>
      if s.fibers.overdue op then some { s with fibers := s.fibers.expire f op } else none
    | _, _ => none
  | .resume f =>
    match s.fibers.running, s.fibers.mode f with
    | none, .expired op | none, .notified op => some (s.resume f op)
    | _, _ => none
  | .tick n => some { s with fibers := s.fibers.tick n }

/-- What a step finds and does. -/
inductive Stepped (s : State F α) : Action F α → State F α → Prop
  | call {f op} : s.fibers.running = none → s.fibers.mode f = .outside →
      Stepped s (.call f op) { s with fibers := s.fibers.run f op }
  | iterate {f op} : s.fibers.running = some (f, op) → Stepped s .iterate (s.iterate f op)
  | expire {f op} : s.fibers.running = none → s.fibers.mode f = .suspended op →
      s.fibers.overdue op = true → Stepped s (.expire f) { s with fibers := s.fibers.expire f op }
  | resume {f op} : s.fibers.running = none →
      s.fibers.mode f = .expired op ∨ s.fibers.mode f = .notified op →
      Stepped s (.resume f) (s.resume f op)
  | tick (n) : Stepped s (.tick n) { s with fibers := s.fibers.tick n }

theorem stepped {s t : State F α} {a : Action F α} (hs : step s a = some t) : Stepped s a t := by
  cases a with
  | call f op =>
    simp only [step] at hs
    split at hs
    · rename_i hrunning hmode
      rw [Option.some.injEq] at hs
      exact hs ▸ .call hrunning hmode
    · exact absurd hs (by simp)
  | iterate =>
    simp only [step] at hs
    split at hs
    · rename_i hrunning
      rw [Option.some.injEq] at hs
      exact hs ▸ .iterate hrunning
    · exact absurd hs (by simp)
  | expire f =>
    simp only [step] at hs
    split at hs
    · rename_i hrunning hmode
      rw [Option.ite_none_right_eq_some, Option.some.injEq] at hs
      exact hs.2 ▸ .expire hrunning hmode hs.1
    · exact absurd hs (by simp)
  | resume f =>
    simp only [step] at hs
    split at hs
    · rename_i hrunning hmode
      rw [Option.some.injEq] at hs
      exact hs ▸ .resume hrunning (.inl hmode)
    · rename_i hrunning hmode
      rw [Option.some.injEq] at hs
      exact hs ▸ .resume hrunning (.inr hmode)
    · exact absurd hs (by simp)
  | tick n =>
    simp only [step, Option.some.injEq] at hs
    exact hs ▸ .tick n

def machine (ring : Ring α) (clock : Nat) : Machine (State F α) (Action F α) :=
  ⟨⟨ring, false, .initial clock, []⟩, step⟩

end BufferedChannel

end Dumbo.Fiber
