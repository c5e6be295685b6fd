import Dumbo.Reactor.FiberIoMessage
import Mathlib.Data.List.Basic
import Mathlib.Data.List.Nodup
import Mathlib.Data.List.Range

/-!
# Batches of file operations on Linux

`File::process_batch` with its `FileMultiIOMessage`, the kernel's answers to `io_submit`, and the
poller, which reports the completion events and queues the message once for each of them. The poller
and the event loop run while the fiber is suspended.
-/

namespace Dumbo.Reactor.LinuxFile

open Transition

/-- `res` and `res2` of an `io_event`, as they are stored in a block. -/
structure Outcome where
  processed : Int
  status : Nat
  deriving DecidableEq, Repr

inductive Pc
  /-- at the head of the loop -/
  | submit
  /-- in `wait_for`, behind an `io_submit` that accepted `res` blocks -/
  | waiting (res : Nat)
  /-- resumed and not yet picked -/
  | ready (res : Nat)
  | returned (count : Nat)
  | threw
  deriving DecidableEq, Repr

structure State where
  done : Nat
  remaining : Nat
  submited : Nat
  blocks : Nat → Outcome
  pc : Pc
  /-- the accepted blocks whose events have not been polled -/
  inFlight : List Nat
  /-- the blocks for which the message stands in the poller's buffer -/
  buffer : List Nat
  /-- an assertion of the scheduler has failed -/
  fault : Bool
  /-- the blocks that `io_submit` has accepted, in its order -/
  accepted : List Nat
  /-- what `io_submit` has returned -/
  answers : List Int
  suspends : Nat
  /-- the event of each block -/
  events : Nat → Option Outcome

inductive Action
  /-- `io_submit` returns -/
  | submit (res : Int)
  /-- the loop ends -/
  | leave
  /-- the poller gets the event of a block -/
  | poll (block : Nat) (event : Outcome)
  /-- the event loop takes the message from the buffer -/
  | finish
  | pick
  deriving DecidableEq, Repr

/-- `int to_submit = total - done` -/
def toSubmit (total done : Nat) : Int :=
  ((total - done : Nat) : Int).bmod 4294967296

/-- What `io_submit` may return for `nr` blocks: an error, or the length of a prefix, which is empty
only if it is given none. -/
def Answers (nr res : Int) : Prop :=
  res < 0 ∨ 0 < res ∧ res ≤ nr ∨ nr = 0 ∧ res = 0

instance (nr res : Int) : Decidable (Answers nr res) :=
  inferInstanceAs (Decidable (_ ∨ _))

/-- `add_submited(num)`, and the accepted blocks in the kernel. -/
def State.addSubmited (s : State) (num : Nat) : State :=
  { s with
    remaining := num
    submited := (s.submited + num) % 18446744073709551616
    inFlight := s.inFlight ++ List.range' s.done num
    accepted := s.accepted ++ List.range' s.done num }

def State.waitFor (s : State) (res : Nat) : State :=
  { s with pc := .waiting res, suspends := s.suspends + 1 }

/-- `Scheduler::resume(fiber_context_)` -/
def State.resume (s : State) : State :=
  match s.pc with
  | .waiting res => { s with pc := .ready res }
  | _ => { s with fault := true }

/-- `FileMultiIOMessage::finish()` -/
def State.finish (s : State) : State :=
  let s' := { s with remaining := decrement s.remaining }
  if s'.remaining = 0 then s'.resume else s'

/-- The fiber is not running: it is suspended, or `process_batch` has been left. -/
def Pc.away : Pc → Bool
  | .submit => false
  | _ => true

/-- `process_batch` on a batch of `total` blocks. Its argument `rise_ex_on_error` is not used. -/
def step (total : Nat) (s : State) : Action → Option State
  | .submit res =>
    if s.pc = .submit ∧ s.done < total ∧ Answers (toSubmit total s.done) res then
      let s' := { s with answers := s.answers ++ [res] }
      if 0 < res then some ((s'.addSubmited res.toNat).waitFor res.toNat)
      else if res < 0 then some { s' with pc := .threw }
      else some { s' with pc := .returned 0 }
    else none
  | .leave =>
    if s.pc = .submit ∧ ¬ s.done < total then some { s with pc := .returned s.done } else none
  | .poll block event =>
    if s.pc.away ∧ block ∈ s.inFlight then
      some { s with
        inFlight := s.inFlight.erase block
        buffer := s.buffer ++ [block]
        blocks := Function.update s.blocks block event
        events := Function.update s.events block (some event) }
    else none
  | .finish =>
    match s.buffer with
    | _ :: rest => if s.pc.away then some { s with buffer := rest }.finish else none
    | [] => none
  | .pick =>
    match s.pc with
    | .ready res => some { s with done := s.done + res, pc := .submit }
    | _ => none

/-- The constructor of the message; the batch may have been used before. -/
def initial (submited : Nat) (blocks : Nat → Outcome) (total : Nat) : State where
  done := 0
  remaining := total
  submited := submited
  blocks := blocks
  pc := .submit
  inFlight := []
  buffer := []
  fault := false
  accepted := []
  answers := []
  suspends := 0
  events := fun _ => none

def machine (submited : Nat) (blocks : Nat → Outcome) (total : Nat) : Machine State Action :=
  ⟨initial submited blocks total, step total⟩

end Dumbo.Reactor.LinuxFile
