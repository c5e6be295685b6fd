import Dumbo.Lib.Chained
import Dumbo.Lib.Machine
import Mathlib.Data.Fintype.Basic

/-!
# `context_mpsc_queue`

The intrusive queue into which every thread pushes and from which the thread of the scheduler pops. One step is
one access of one thread to `head_` or to a link; `tail_` is the popping thread's own.
-/

namespace Dumbo.Fiber.ContextMpscQueue

open Transition

variable {Θ C : Type*}

/-- What a `context*` of the queue points to. -/
inductive Node (C : Type*)
  | dummy
  | ctx (c : C)
  deriving DecidableEq, Repr

/-- Where a thread is in `push`. -/
inductive PushPc (C : Type*)
  | idle
  /-- before `head_.exchange` -/
  | exchange (ctx : C)
  /-- before it stores the link -/
  | link (prev : Node C) (ctx : C)
  deriving DecidableEq, Repr

/-- Where the scheduler is in `pop`; the local `tail` is `tail_` wherever it is read again. -/
inductive PopPc (C : Type*)
  | idle
  /-- past the dummy, before it loads the next link -/
  | next
  /-- before `head_.load` -/
  | head
  /-- in `push( dummy_)` -/
  | clear
  | exchange
  | link (prev : Node C)
  /-- before the last load of the link -/
  | last
  deriving DecidableEq, Repr

structure State (Θ C : Type*) where
  /-- `remote_nxt_` -/
  next : Node C → Option (Node C)
  head : Node C
  tail : Node C
  pushing : Θ → PushPc C
  popping : PopPc C
  /-- the contexts, in the order of the exchanges -/
  pushed : List C
  /-- the results of `pop` that are not null -/
  popped : List (Node C)

namespace State

variable [DecidableEq C]

def setNext (s : State Θ C) (n : Node C) (next : Option (Node C)) : State Θ C :=
  { s with next := Function.update s.next n next }

/-- `return tail`, behind the assignment of `tail_` -/
def take (s : State Θ C) (next : Node C) : State Θ C :=
  { s with tail := next, popped := s.popped ++ [s.tail], popping := .idle }

/-- `pop`, up to its second access. -/
def pop (s : State Θ C) : State Θ C :=
  match s.tail, s.next s.tail with
  | .dummy, none => s
  | .dummy, some next => { s with tail := next, popping := .next }
  | .ctx _, some next => s.take next
  | .ctx _, none => { s with popping := .head }

/-- The next step of `pop`. -/
def goPop (s : State Θ C) : Option (State Θ C) :=
  match s.popping with
  | .idle => none
  | .next =>
    match s.next s.tail with
    | some next => some (s.take next)
    | none => some { s with popping := .head }
  | .head => some { s with popping := if s.tail = s.head then .clear else .idle }
  | .clear => some { s.setNext .dummy none with popping := .exchange }
  | .exchange => some { s with head := .dummy, popping := .link s.head }
  | .link prev => some { s.setNext prev (some .dummy) with popping := .last }
  | .last =>
    match s.next s.tail with
    | some next => some (s.take next)
    | none => some { s with popping := .idle }

variable [DecidableEq Θ]

def setPushing (s : State Θ C) (t : Θ) (pc : PushPc C) : State Θ C :=
  { s with pushing := Function.update s.pushing t pc }

/-- `push`, up to its second access. -/
def push (s : State Θ C) (t : Θ) (ctx : C) : State Θ C :=
  (s.setNext (.ctx ctx) none).setPushing t (.exchange ctx)

/-- The next step of a `push`. -/
def goPush (s : State Θ C) (t : Θ) : Option (State Θ C) :=
  match s.pushing t with
  | .idle => none
  | .exchange ctx =>
    some ({ s with head := .ctx ctx, pushed := s.pushed ++ [ctx] }.setPushing t (.link s.head ctx))
  | .link prev ctx => some ((s.setNext prev (some (.ctx ctx))).setPushing t .idle)

end State

inductive Action (Θ C : Type*)
  | push (t : Θ) (ctx : C)
  | goPush (t : Θ)
  | pop
  | goPop
  deriving DecidableEq, Repr

section Steps

variable [DecidableEq C] [DecidableEq Θ]

def step (s : State Θ C) : Action Θ C → Option (State Θ C)
  | .push t ctx => if s.pushing t = .idle then some (s.push t ctx) else none
  | .goPush t => s.goPush t
  | .pop => if s.popping = .idle then some s.pop else none
  | .goPop => s.goPop

omit [DecidableEq C] [DecidableEq Θ] in
def create : State Θ C where
  next _ := none
  head := .dummy
  tail := .dummy
  pushing _ := .idle
  popping := .idle
  pushed := []
  popped := []

variable (Θ C) in
def machine : Machine (State Θ C) (Action Θ C) := ⟨create, step⟩

end Steps

/-- The context that a thread is pushing. -/
def PushPc.ctx : PushPc C → Option C
  | .idle => none
  | .exchange ctx | .link _ ctx => some ctx

/-- The contexts that are in the queue. -/
def State.waiting (s : State Θ C) : List C := s.pushed.drop s.popped.length

/-- The queue is intrusive: a context is not pushed while it is in the queue or being pushed. -/
def PushesUnlinked (s : State Θ C) : Action Θ C → Prop
  | .push _ ctx => ctx ∉ s.waiting ∧ ∀ u, (s.pushing u).ctx ≠ some ctx
  | _ => True

instance [DecidableEq C] [Fintype Θ] (s : State Θ C) (a : Action Θ C) : Decidable (PushesUnlinked s a) :=
  match a with
  | .push _ ctx => inferInstanceAs (Decidable (ctx ∉ s.waiting ∧ ∀ u, (s.pushing u).ctx ≠ some ctx))
  | .goPush _ | .pop | .goPop => inferInstanceAs (Decidable True)

/-- A thread has exchanged `head_` for its context, and has not stored the link to it yet. -/
def State.Linking (s : State Θ C) (t : Θ) : Prop := ∃ prev ctx, s.pushing t = .link prev ctx

end Dumbo.Fiber.ContextMpscQueue
