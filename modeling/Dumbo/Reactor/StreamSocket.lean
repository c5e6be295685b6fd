import Dumbo.Lib.Machine
import Mathlib.Data.List.Basic
import Mathlib.Data.List.Count

/-!
# Reading from and writing to a stream socket

`StreamSocketConnection::read` and `write`. The kernel answers each `::read` and `::write` with bytes
or with -1 and an `errno`; `wait_for` returns.
-/

namespace Dumbo.Reactor.StreamSocket

open Transition

def EAGAIN : Nat := 11
def EWOULDBLOCK : Nat := EAGAIN

/-- A call of `read(data, size)` or of `write(data, size)`. -/
inductive Call
  | read (size : Nat)
  | write (data : List UInt8)
  deriving DecidableEq, Repr

/-- What the kernel did in a `::read` or `::write`. -/
inductive Answer
  /-- these bytes were stored at `data` -/
  | delivered (bytes : List UInt8)
  /-- so many bytes were taken from `data` -/
  | accepted (count : Nat)
  | error (errno : Nat)
  deriving DecidableEq, Repr

/-- The value that the system call returns. -/
def Answer.result : Answer → Int
  | .delivered bytes => bytes.length
  | .accepted count => count
  | .error _ => -1

def Answer.errno : Answer → Nat
  | .error errno => errno
  | _ => 0

/-- The answers that the kernel can give to a call. -/
def Answer.fits : Call → Answer → Bool
  | .read size, .delivered bytes => bytes.length ≤ size
  | .write data, .accepted count => count ≤ data.length
  | _, .error _ => true
  | _, _ => false

/-- Where the fiber stands in a call. -/
inductive Pc
  | idle
  /-- before `::read` or `::write` -/
  | system (call : Call)
  /-- in `message_.wait_for()` -/
  | waiting (call : Call)
  deriving DecidableEq, Repr

structure State where
  pc : Pc
  answers : List Answer
  /-- the bytes that the kernel has delivered -/
  delivered : List UInt8
  /-- the bytes that the calls of `read` have reported -/
  received : List UInt8
  /-- the bytes that the kernel has accepted -/
  accepted : List UInt8
  /-- the bytes that the calls of `write` have reported -/
  written : List UInt8
  waits : Nat
  /-- the errors that the calls have raised -/
  raised : List Nat
  deriving DecidableEq, Repr

inductive Action
  | call (call : Call)
  | kernel (answer : Answer)
  | resume
  deriving DecidableEq, Repr

/-- The kernel's side of a system call. -/
def State.transfer (s : State) (call : Call) (answer : Answer) : State :=
  match call, answer with
  | .read _, .delivered bytes => { s with delivered := s.delivered ++ bytes }
  | .write data, .accepted count => { s with accepted := s.accepted ++ data.take count }
  | _, _ => s

/-- The return from a call with `result` bytes. -/
def State.report (s : State) (call : Call) (answer : Answer) : State :=
  match call, answer with
  | .read _, .delivered bytes => { s with received := s.received ++ bytes }
  | .write data, .accepted count => { s with written := s.written ++ data.take count }
  | _, _ => s

/-- The body of the loop behind the system call. -/
def State.classify (s : State) (call : Call) (answer : Answer) : State :=
  let result := answer.result
  if result = EAGAIN ∨ result = EWOULDBLOCK then
    { s with pc := .waiting call, waits := s.waits + 1 }
  else if 0 ≤ result then
    { s.report call answer with pc := .idle }
  else
    { s with pc := .idle, raised := s.raised ++ [answer.errno] }

def step (s : State) : Action → Option State
  | .call call =>
    match s.pc with
    | .idle => some { s with pc := .system call }
    | _ => none
  | .kernel answer =>
    match s.pc with
    | .system call =>
      if answer.fits call then
        some ({ s.transfer call answer with answers := s.answers ++ [answer] }.classify call answer)
      else none
    | _ => none
  | .resume =>
    match s.pc with
    | .waiting call => some { s with pc := .system call }
    | _ => none

def machine : Machine State Action :=
  ⟨⟨.idle, [], [], [], [], [], 0, []⟩, step⟩

/-! ### Stream integrity -/

def Answer.wouldBlock : Answer → Bool
  | .error errno => errno = EAGAIN ∨ errno = EWOULDBLOCK
  | _ => false

/-- An error that is to be raised. -/
def Answer.failure : Answer → Option Nat
  | .error errno => if errno = EAGAIN ∨ errno = EWOULDBLOCK then none else some errno
  | _ => none

/-- An answer that the loops take for one of another kind: a transfer of exactly 11 bytes, or a call
that would block. -/
def Answer.Misread (answer : Answer) : Prop :=
  answer.result = EAGAIN ∨ answer.wouldBlock = true

structure Integrity (s : State) : Prop where
  read : s.received = s.delivered
  write : s.written = s.accepted
  /-- the fiber is suspended for the would-block answers -/
  waits : s.waits = s.answers.countP Answer.wouldBlock
  /-- the other errors are raised -/
  raised : s.raised = s.answers.filterMap Answer.failure

def Answer.anyError : Answer → Option Nat
  | .error errno => some errno
  | _ => none

/-- A transfer whose byte count is the number of an error. -/
def Answer.lost (answer : Answer) : Bool :=
  answer.result = EAGAIN

/-- What the loops do with every sequence of answers. -/
structure Inv (s : State) : Prop where
  lost : s.delivered.length + s.accepted.length =
    s.received.length + s.written.length + 11 * s.answers.countP Answer.lost
  waits : s.waits = s.answers.countP Answer.lost
  raised : s.raised = s.answers.filterMap Answer.anyError
  clean : (∀ answer ∈ s.answers, ¬ answer.Misread) →
    s.received = s.delivered ∧ s.written = s.accepted

variable {s t : State} {call : Call} {answer : Answer}

theorem Answer.anyError_of_lost (h : answer.lost = true) : answer.anyError = none := by
  cases answer with
  | error errno => simp [Answer.lost, Answer.result, EAGAIN] at h
  | _ => rfl

theorem Inv.of_lost (h : Inv s) (ha : answer.lost = true) (hanswers : t.answers = s.answers ++ [answer])
    (hlen : t.delivered.length + t.accepted.length = s.delivered.length + s.accepted.length + 11)
    (hreceived : t.received = s.received) (hwritten : t.written = s.written)
    (hwaits : t.waits = s.waits + 1) (hraised : t.raised = s.raised) : Inv t := by
  have hcount : t.answers.countP Answer.lost = s.answers.countP Answer.lost + 1 := by
    rw [hanswers, List.countP_append, List.countP_singleton, if_pos ha]
  refine ⟨?_, ?_, ?_, fun hm => ?_⟩
  · rw [hlen, hreceived, hwritten, hcount, h.lost]
    omega
  · rw [hwaits, hcount, h.waits]
  · rw [hraised, hanswers, List.filterMap_append, List.filterMap_cons_none
      (Answer.anyError_of_lost ha), List.filterMap_nil, List.append_nil, h.raised]
  · have hmem : answer ∈ t.answers := by
      rw [hanswers]
      exact List.mem_append_right _ (List.mem_singleton_self _)
    exact absurd (.inl (of_decide_eq_true ha)) (hm answer hmem)

theorem Inv.of_not_lost (h : Inv s) (ha : answer.lost = false)
    (hanswers : t.answers = s.answers ++ [answer]) {r w : List UInt8}
    (hdelivered : t.delivered = s.delivered ++ r) (hreceived : t.received = s.received ++ r)
    (haccepted : t.accepted = s.accepted ++ w) (hwritten : t.written = s.written ++ w)
    (hwaits : t.waits = s.waits) (hraised : t.raised = s.raised ++ answer.anyError.toList) :
    Inv t := by
  have hcount : t.answers.countP Answer.lost = s.answers.countP Answer.lost := by
    rw [hanswers, List.countP_append, List.countP_singleton, if_neg (by rw [ha]; decide),
      Nat.add_zero]
  refine ⟨?_, ?_, ?_, fun hm => ?_⟩
  · have hlost := h.lost
    rw [hdelivered, hreceived, haccepted, hwritten, hcount]
    simp only [List.length_append]
    omega
  · rw [hwaits, hcount, h.waits]
  · rw [hraised, hanswers, List.filterMap_append, h.raised]
    cases answer <;> rfl
  · obtain ⟨hr, hw⟩ := h.clean fun a ha => hm a (by
      rw [hanswers]
      exact List.mem_append_left _ ha)
    exact ⟨by rw [hreceived, hdelivered, hr], by rw [hwritten, haccepted, hw]⟩

theorem State.classify_lost (h : answer.lost = true) :
    s.classify call answer = { s with pc := .waiting call, waits := s.waits + 1 } := by
  rw [State.classify]
  exact if_pos (.inl (of_decide_eq_true h))

theorem State.classify_transfer (h : answer.lost = false) (hp : 0 ≤ answer.result) :
    s.classify call answer = { s.report call answer with pc := .idle } := by
  have hne := of_decide_eq_false h
  rw [State.classify]
  exact (if_neg fun he => hne (he.elim id id)).trans (if_pos hp)

theorem Inv.kernel (h : Inv s) (hfit : answer.fits call = true) :
    Inv ({ s.transfer call answer with answers := s.answers ++ [answer] }.classify call answer) := by
  cases hlost : answer.lost with
  | true =>
    rw [State.classify_lost hlost]
    have hresult : answer.result = 11 := of_decide_eq_true hlost
    cases answer with
    | error errno => exact absurd hresult (by simp [Answer.result])
    | delivered bytes =>
      cases call with
      | write data => exact absurd hfit Bool.false_ne_true
      | read size =>
        have hlen : bytes.length = 11 := Int.ofNat_inj.mp hresult
        refine h.of_lost hlost rfl ?_ rfl rfl rfl rfl
        simp only [State.transfer, List.length_append, hlen]
        omega
    | accepted count =>
      cases call with
      | read size => exact absurd hfit Bool.false_ne_true
      | write data =>
        have hcount : count = 11 := Int.ofNat_inj.mp hresult
        have hle : count ≤ data.length := of_decide_eq_true hfit
        refine h.of_lost hlost rfl ?_ rfl rfl rfl rfl
        simp only [State.transfer, List.length_append, List.length_take]
        omega
  | false =>
    cases answer with
    | error errno =>
      have htransfer : s.transfer call (.error errno) = s := by cases call <;> rfl
      rw [htransfer]
      exact h.of_not_lost (r := []) (w := []) hlost rfl (List.append_nil _).symm
        (List.append_nil _).symm (List.append_nil _).symm (List.append_nil _).symm rfl rfl
    | delivered bytes =>
      rw [State.classify_transfer hlost (Int.natCast_nonneg _)]
      cases call with
      | write data => exact absurd hfit Bool.false_ne_true
      | read size =>
        exact h.of_not_lost (w := []) hlost rfl rfl rfl (List.append_nil _).symm
          (List.append_nil _).symm rfl (List.append_nil _).symm
    | accepted count =>
      rw [State.classify_transfer hlost (Int.natCast_nonneg _)]
      cases call with
      | read size => exact absurd hfit Bool.false_ne_true
      | write data =>
        exact h.of_not_lost (r := []) hlost rfl (List.append_nil _).symm
          (List.append_nil _).symm rfl rfl rfl (List.append_nil _).symm

theorem Inv.step {a : Action} (h : Inv s) (hs : machine.step s a = some t) : Inv t := by
  cases a with
  | call call =>
    simp only [machine, StreamSocket.step] at hs
    split at hs
    · cases hs
      exact ⟨h.lost, h.waits, h.raised, h.clean⟩
    · exact absurd hs (by simp)
  | kernel answer =>
    simp only [machine, StreamSocket.step] at hs
    split at hs
    · rw [Option.ite_none_right_eq_some, Option.some.injEq] at hs
      exact hs.2 ▸ h.kernel hs.1
    · exact absurd hs (by simp)
  | resume =>
    simp only [machine, StreamSocket.step] at hs
    split at hs
    · cases hs
      exact ⟨h.lost, h.waits, h.raised, h.clean⟩
    · exact absurd hs (by simp)

theorem Inv.of_reachable (h : machine.Reachable s) : Inv s := by
  apply h.invariant (P := Inv) _ fun _ _ _ hi hs => hi.step hs
  exact ⟨rfl, rfl, rfl, fun _ => ⟨rfl, rfl⟩⟩

/-- The errors that are raised are the ones to be raised when no call would have blocked. -/
theorem filterMap_anyError {answers : List Answer}
    (h : ∀ answer ∈ answers, ¬ answer.Misread) :
    answers.filterMap Answer.anyError = answers.filterMap Answer.failure := by
  apply List.filterMap_congr
  intro answer ha
  cases answer with
  | error errno =>
    have hne : ¬ (errno = EAGAIN ∨ errno = EWOULDBLOCK) := fun he =>
      h _ ha (.inr (decide_eq_true he))
    rw [Answer.anyError, Answer.failure, if_neg hne]
  | _ => rfl

/-- The streams are intact, the fiber is suspended for the would-block answers and the other errors
are raised exactly when the kernel has transferred no chunk of 11 bytes and no call would have
blocked. -/
theorem stream_integrity_iff (h : machine.Reachable s) :
    Integrity s ↔ ∀ answer ∈ s.answers, ¬ answer.Misread := by
  have hinv := Inv.of_reachable h
  constructor
  · intro hi answer ha hm
    have hzero : s.answers.countP Answer.lost = 0 := by
      have hlost := hinv.lost
      rw [hi.read, hi.write] at hlost
      omega
    rcases hm with hlost | hblock
    · exact List.countP_eq_zero.mp hzero answer ha (decide_eq_true hlost)
    · have hwaits := hi.waits
      rw [hinv.waits, hzero] at hwaits
      exact List.countP_eq_zero.mp hwaits.symm answer ha hblock
  · intro hm
    obtain ⟨hread, hwrite⟩ := hinv.clean hm
    refine ⟨hread, hwrite, ?_, ?_⟩
    · have hlost : s.answers.countP Answer.lost = 0 :=
        List.countP_eq_zero.mpr fun a ha hl => hm a ha (.inl (of_decide_eq_true hl))
      have hblock : s.answers.countP Answer.wouldBlock = 0 :=
        List.countP_eq_zero.mpr fun a ha hb => hm a ha (.inr hb)
      rw [hinv.waits, hlost, hblock]
    · rw [hinv.raised, filterMap_anyError hm]

/-- A read of two chunks, none of them 11 bytes long. -/
theorem stream_integrity_two : ∃ s, s.received = [1, 2, 3] ∧
    (Integrity s ↔ ∀ answer ∈ s.answers, ¬ answer.Misread) := by
  obtain ⟨s, hs, hr⟩ : ∃ s, machine.exec machine.start
      [.call (.read 4), .kernel (.delivered [1, 2]), .call (.read 4), .kernel (.delivered [3])] =
        some s ∧ s.received = [1, 2, 3] := ⟨_, rfl, rfl⟩
  exact ⟨s, hr, stream_integrity_iff (Machine.reachable_of_exec hs)⟩

/-- A chunk of 11 bytes is dropped, and a write that would block raises its error. -/
theorem stream_drops_chunk : (∃ s, machine.Reachable s ∧
      s.delivered = [0, 1, 2, 3, 4, 5, 6, 7, 8, 9, 10, 11] ∧ s.received = [11] ∧ ¬ Integrity s) ∧
    ∃ s, machine.Reachable s ∧ s.raised = [EAGAIN] ∧ s.waits = 0 ∧ ¬ Integrity s := by
  constructor
  · obtain ⟨s, hs, hd, hr⟩ : ∃ s, machine.exec machine.start
        [.call (.read 16), .kernel (.delivered [0, 1, 2, 3, 4, 5, 6, 7, 8, 9, 10]), .resume,
          .kernel (.delivered [11])] = some s ∧
        s.delivered = [0, 1, 2, 3, 4, 5, 6, 7, 8, 9, 10, 11] ∧ s.received = [11] :=
      ⟨_, rfl, rfl, rfl⟩
    refine ⟨s, Machine.reachable_of_exec hs, hd, hr, fun hi => ?_⟩
    have hread := hi.read
    rw [hd, hr] at hread
    exact absurd hread (by decide)
  · obtain ⟨s, hs, hr, hw, ha⟩ : ∃ s, machine.exec machine.start
        [.call (.write [1]), .kernel (.error EAGAIN)] = some s ∧ s.raised = [EAGAIN] ∧
        s.waits = 0 ∧ s.answers = [.error EAGAIN] := ⟨_, rfl, rfl, rfl, rfl⟩
    refine ⟨s, Machine.reachable_of_exec hs, hr, hw, fun hi => ?_⟩
    have hwaits := hi.waits
    rw [hw, ha] at hwaits
    exact absurd hwaits (by decide)

end Dumbo.Reactor.StreamSocket
