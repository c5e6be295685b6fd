import Dumbo.Reactor.FiberIoMessage
import Mathlib.Data.List.Basic

/-!
# File operations on Windows

`File::process_batch`, `File::read` and `File::write` with their `AIOMessage` and the completion
port. An accepted operation yields one packet; the poller and the event loop run while the fiber is
suspended.
-/

namespace Dumbo.Reactor.WindowsFile

open Transition

/-- What `ReadFile` or `WriteFile` does with an operation. -/
inductive Answer
  /-- success, or `ERROR_IO_PENDING` -/
  | accepted
  /-- `ERROR_INVALID_USER_BUFFER` or `ERROR_NOT_ENOUGH_MEMORY` -/
  | shortage
  | rejected
  deriving DecidableEq, Repr

/-- A call of `wait_for()`: the counter and the accepted and unfinished operations at its entry, and
the number of `finish()` calls that are to end it. -/
structure Wait where
  count : Nat
  outstanding : Nat
  meant : Nat
  deriving DecidableEq, Repr

/-- The message of a call, and the operations that the call has started. -/
structure Port where
  message : FiberIoMessage
  /-- the accepted operations whose packets have not been polled -/
  inFlight : List Nat
  /-- the operations for which the message stands in the poller's buffer -/
  buffer : List Nat
  waits : List Wait
  /-- the calls of `finish()` that took the counter below zero -/
  wrapped : Nat
  deriving DecidableEq, Repr

namespace Port

/-- `AIOMessage message(r.cpu())` -/
def create : Port := ⟨.create 1, [], [], [], 0⟩

def outstanding (p : Port) : Nat :=
  p.inFlight.length + p.buffer.length

def accept (p : Port) (op : Nat) : Port :=
  { p with inFlight := p.inFlight ++ [op] }

def setCount (p : Port) (count : Nat) : Port :=
  { p with message := { p.message with count := count } }

def waitFor (p : Port) (meant : Nat) : Port :=
  { p with
    message := p.message.waitFor
    waits := p.waits ++ [⟨p.message.count, p.outstanding, meant⟩] }

def poll (p : Port) (op : Nat) : Port :=
  { p with inFlight := p.inFlight.erase op, buffer := p.buffer ++ [op] }

/-- The event loop takes the message from the buffer. -/
def finish (p : Port) : Port :=
  { p with
    message := p.message.finish
    buffer := p.buffer.tail
    wrapped := if p.message.count = 0 then p.wrapped + 1 else p.wrapped }

def pick (p : Port) : Port :=
  { p with message := p.message.pick }

end Port

inductive Action
  | issue (answer : Answer)
  /-- the loop over the blocks ends -/
  | leave
  | poll (op : Nat)
  | finish
  | pick
  deriving DecidableEq, Repr

/-! ### Batches -/

inductive BatchPc
  /-- in the loop over the blocks -/
  | issue
  /-- in `wait_for`, until resources appear -/
  | shortage
  /-- in `wait_for`, before the error is reported -/
  | failing
  /-- in `wait_for`, with all blocks accepted -/
  | finishing
  | returned (count : Nat)
  | threw
  deriving DecidableEq, Repr

structure Batch where
  port : Port
  /-- `c`, and `wait_num`, which is incremented with it -/
  c : Nat
  submited : Nat
  pc : BatchPc
  deriving DecidableEq, Repr

/-- The report of an error. -/
def Batch.fail (s : Batch) (riseExOnError : Bool) : Batch :=
  { s with submited := s.c, pc := if riseExOnError then .threw else .returned s.c }

/-- Return from `wait_for()`. -/
def Batch.resumed (s : Batch) (riseExOnError : Bool) : Batch :=
  match s.pc with
  | .shortage => { s with pc := .issue }
  | .failing => s.fail riseExOnError
  | .finishing => { s with submited := s.c, pc := .returned s.c }
  | _ => s

def Batch.issue (s : Batch) (riseExOnError : Bool) : Answer → Batch
  | .accepted => { s with port := s.port.accept s.c, c := s.c + 1 }
  | .shortage => { s with port := s.port.waitFor 1, pc := .shortage }
  | .rejected =>
    if 0 < s.c then
      { s with port := (s.port.setCount s.c).waitFor s.port.outstanding, pc := .failing }
    else s.fail riseExOnError

/-- `process_batch` on a batch of `total` blocks. -/
def batchStep (total : Nat) (riseExOnError : Bool) (s : Batch) : Action → Option Batch
  | .issue answer =>
    if s.pc = .issue ∧ s.c < total then some (s.issue riseExOnError answer) else none
  | .leave =>
    if s.pc = .issue ∧ ¬ s.c < total then
      some { s with port := (s.port.setCount s.c).waitFor s.port.outstanding, pc := .finishing }
    else none
  | .poll op =>
    if s.pc ≠ .issue ∧ op ∈ s.port.inFlight then some { s with port := s.port.poll op } else none
  | .finish =>
    if s.pc ≠ .issue ∧ s.port.buffer ≠ [] then some { s with port := s.port.finish } else none
  | .pick =>
    if s.port.message.fiber = .ready then
      some ({ s with port := s.port.pick }.resumed riseExOnError)
    else none

/-- The batch may have been used before. -/
def batch (submited total : Nat) (riseExOnError : Bool) : Machine Batch Action :=
  ⟨⟨.create, 0, submited, .issue⟩, batchStep total riseExOnError⟩

/-! ### Single operations -/

inductive SinglePc
  | issue
  /-- in `wait_for`, until resources appear -/
  | shortage
  /-- in `wait_for`, with the operation accepted -/
  | waiting
  /-- `read` or `write` has returned, or raised the error of the operation -/
  | returned
  /-- `std::terminate` -/
  | terminated
  deriving DecidableEq, Repr

structure Single where
  port : Port
  pc : SinglePc
  deriving DecidableEq, Repr

def Single.resumed (s : Single) : Single :=
  match s.pc with
  | .shortage => { s with pc := .issue }
  | .waiting => { s with pc := .returned }
  | _ => s

def Single.issue (s : Single) : Answer → Single
  | .accepted =>
    let port := s.port.accept 0
    ⟨port.waitFor port.outstanding, .waiting⟩
  | .shortage => ⟨s.port.waitFor 1, .shortage⟩
  | .rejected => { s with pc := .terminated }

/-- `read`, and `write`, which differs from it in the system call only. -/
def singleStep (s : Single) : Action → Option Single
  | .issue answer => if s.pc = .issue then some (s.issue answer) else none
  | .leave => none
  | .poll op =>
    if s.pc ≠ .issue ∧ op ∈ s.port.inFlight then some { s with port := s.port.poll op } else none
  | .finish =>
    if s.pc ≠ .issue ∧ s.port.buffer ≠ [] then some { s with port := s.port.finish } else none
  | .pick =>
    if s.port.message.fiber = .ready then some { s with port := s.port.pick }.resumed else none

def single : Machine Single Action := ⟨⟨.create, .issue⟩, singleStep⟩

end Dumbo.Reactor.WindowsFile
