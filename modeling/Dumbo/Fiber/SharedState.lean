import Dumbo.Fiber.MonitoredWaits

/-!
# The state shared by a promise and its futures

A shared state is not destroyed as long as a holder or a call refers to it, and counts of holders are
not modelled. An exception that is set is not a null pointer.
-/

namespace Dumbo.Fiber

open Transition Monitored

/-- The exceptions of futures, and those of the program. -/
inductive Exception (E : Type*)
  | user (e : E)
  | brokenPromise
  | futureAlreadyRetrieved
  | futureUninitialized
  | packagedTaskUninitialized
  | promiseAlreadySatisfied
  | promiseUninitialized
  deriving DecidableEq, Repr

structure SharedState (V E : Type*) where
  ready : Bool
  except : Option (Exception E)
  /-- the value in `storage_` -/
  storage : Option V
  /-- `future::get` has moved it away -/
  moved : Bool
  deriving DecidableEq, Repr

namespace SharedState

variable {V E : Type*}

def create : SharedState V E := ⟨false, none, none, false⟩

/-- The calls that change the state, and those that wait for it. -/
inductive WaitKind
  /-- `wait`, `wait_for` and `wait_until` -/
  | wait (timeoutTime : Option Nat)
  /-- of a `future`, which moves the value, or of a `shared_future` -/
  | get (moves : Bool)
  | getExceptionPtr
  deriving DecidableEq, Repr

inductive Call (V E : Type*)
  | setValue (value : V)
  | setException (except : Exception E)
  /-- `set_value` in `task_object::run` -/
  | runValue (value : V)
  | ownerDestroyed
  | wait (w : WaitKind)
  deriving DecidableEq, Repr

inductive Result (V E : Type*)
  /-- the state has become ready with this value or exception -/
  | satisfied (outcome : Except (Exception E) V)
  /-- `promise_already_satisfied` has been thrown -/
  | alreadySatisfied
  /-- the owner of a ready state has been destroyed -/
  | unaffected
  | status (ready : Bool)
  /-- the value, or the exception that is thrown -/
  | got (outcome : Except (Exception E) V)
  /-- storage without a value has been read -/
  | garbage
  | exceptionPtr (except : Option (Exception E))

/-- `mark_ready_and_notify_` -/
def markReady (d : SharedState V E) (outcome : Except (Exception E) V) :
    SharedState V E × Outcome (Call V E) WaitKind (Result V E) :=
  ({ d with ready := true }, .returns (.satisfied outcome) true)

def setValue (d : SharedState V E) (value : V) :
    SharedState V E × Outcome (Call V E) WaitKind (Result V E) :=
  if d.ready then (d, .returns .alreadySatisfied false)
  else markReady { d with storage := some value } (.ok value)

def setException (d : SharedState V E) (except : Exception E) :
    SharedState V E × Outcome (Call V E) WaitKind (Result V E) :=
  if d.ready then (d, .returns .alreadySatisfied false)
  else markReady { d with except := some except } (.error except)

def ownerDestroyed (d : SharedState V E) : SharedState V E × Outcome (Call V E) WaitKind (Result V E) :=
  if d.ready then (d, .returns .unaffected false) else d.setException .brokenPromise

/-- What a task function returns; where `set_value` throws, the handler calls `set_exception` with its
exception. -/
def runValue (d : SharedState V E) (value : V) :
    SharedState V E × Outcome (Call V E) WaitKind (Result V E) :=
  if d.ready then (d, .calls (.setException .promiseAlreadySatisfied)) else d.setValue value

/-- `get_` behind its wait. -/
def get (d : SharedState V E) (moves : Bool) : SharedState V E × Result V E :=
  match d.except with
  | some e => (d, .got (.error e))
  | none =>
    match d.storage with
    | some value =>
      if d.moved then (d, .garbage) else ({ d with moved := moves }, .got (.ok value))
    | none => (d, .garbage)

def methods : Methods (SharedState V E) (Call V E) WaitKind (Result V E) where
  enter a d :=
    match a with
    | .setValue value => d.setValue value
    | .setException except => d.setException except
    | .runValue value => d.runValue value
    | .ownerDestroyed => d.ownerDestroyed
    | .wait w => (d, .waits w)
  pred _ d := d.ready
  timeoutTime
    | .wait timeoutTime => timeoutTime
    | _ => none
  leave w ready d :=
    match w with
    | .wait _ => (d, .status ready)
    | .get moves => d.get moves
    | .getExceptionPtr => (d, .exceptionPtr d.except)

/-! ### The outcome is written once -/

/-- The value or the exception, once the state is ready. -/
def outcome (d : SharedState V E) : Option (Except (Exception E) V) :=
  if d.ready then
    match d.except with
    | some e => some (.error e)
    | none => d.storage.map .ok
  else none

/-- A state that is not ready holds nothing, and one that is ready holds an outcome. -/
structure Good (d : SharedState V E) : Prop where
  empty : d.ready = false → d = create
  full : d.ready = true → d.outcome.isSome

/-- What `get_exception_ptr` returns. -/
def exceptionOf : Except (Exception E) V → Option (Exception E)
  | .error e => some e
  | .ok _ => none

/-- What a call has returned agrees with the outcome. -/
def Agrees (o : Option (Except (Exception E) V)) : Result V E → Prop
  | .satisfied x | .got x => o = some x
  | .exceptionPtr except => o.map exceptionOf = some except
  | .alreadySatisfied | .unaffected | .status true => o.isSome
  | .status false => True
  | .garbage => False

variable {d : SharedState V E}

theorem outcome_value (value : V) (moved : Bool) :
    outcome (⟨true, none, some value, moved⟩ : SharedState V E) = some (.ok value) := rfl

theorem outcome_except (except : Exception E) (moved : Bool) :
    outcome (⟨true, some except, none, moved⟩ : SharedState V E) = some (.error except) := rfl

theorem Agrees.mono {o o' : Option (Except (Exception E) V)} {r : Result V E} (h : Agrees o r)
    (ho : ∀ x, o = some x → o' = some x) : Agrees o' r := by
  cases r with
  | satisfied x | got x => exact ho x h
  | exceptionPtr except =>
    obtain ⟨x, hx, hexcept⟩ := Option.map_eq_some_iff.mp h
    exact Option.map_eq_some_iff.mpr ⟨x, ho x hx, hexcept⟩
  | alreadySatisfied | unaffected =>
    obtain ⟨x, hx⟩ := Option.isSome_iff_exists.mp h
    exact Option.isSome_iff_exists.mpr ⟨x, ho x hx⟩
  | status ready =>
    cases ready with
    | false => trivial
    | true =>
      obtain ⟨x, hx⟩ := Option.isSome_iff_exists.mp h
      exact Option.isSome_iff_exists.mpr ⟨x, ho x hx⟩
  | garbage => exact h

theorem Good.create : Good (create : SharedState V E) :=
  ⟨fun _ => rfl, fun h => absurd h Bool.false_ne_true⟩

theorem Good.not_ready (h : Good d) (ho : d.outcome = none) : d.ready = false := by
  by_contra hready
  have hfull := h.full (by simpa using hready)
  rw [ho] at hfull
  exact absurd hfull (by simp)

/-! ### What the calls do -/

theorem enter_ready (hd : d.ready = true) (a : Call V E) :
    (methods.enter a d).1 = d ∧ (methods.enter a d).2 = match a with
      | .setValue _ | .setException _ => .returns .alreadySatisfied false
      | .runValue _ => .calls (.setException .promiseAlreadySatisfied)
      | .ownerDestroyed => .returns .unaffected false
      | .wait w => .waits w := by
  cases a with
  | setValue value => simp [methods, setValue, hd]
  | setException except => simp [methods, setException, hd]
  | runValue value => simp [methods, runValue, hd]
  | ownerDestroyed => simp [methods, ownerDestroyed, hd]
  | wait w => exact ⟨rfl, rfl⟩

/-- The value or the exception that a call makes a state ready with. -/
def Call.sets : Call V E → Option (Except (Exception E) V)
  | .setValue value | .runValue value => some (.ok value)
  | .setException except => some (.error except)
  | .ownerDestroyed => some (.error .brokenPromise)
  | .wait _ => none

theorem enter_not_ready (h : Good d) (hd : d.ready = false) (a : Call V E) :
    (∃ x, a.sets = some x ∧ (methods.enter a d).2 = .returns (.satisfied x) true ∧
        (methods.enter a d).1.ready = true ∧ (methods.enter a d).1.outcome = some x) ∨
      ∃ w, a = .wait w ∧ methods.enter a d = (d, .waits w) := by
  obtain rfl := h.empty hd
  cases a with
  | setValue value | runValue value => exact .inl ⟨.ok value, rfl, rfl, rfl, rfl⟩
  | setException except => exact .inl ⟨.error except, rfl, rfl, rfl, rfl⟩
  | ownerDestroyed => exact .inl ⟨.error .brokenPromise, rfl, rfl, rfl, rfl⟩
  | wait w => exact .inr ⟨w, rfl, rfl⟩

theorem leave_outcome (w : WaitKind) (ready : Bool) (d : SharedState V E) :
    (methods.leave w ready d).1.ready = d.ready ∧ (methods.leave w ready d).1.outcome = d.outcome := by
  cases w with
  | wait _ | getExceptionPtr => exact ⟨rfl, rfl⟩
  | get moves =>
    simp only [methods, get]
    split
    · exact ⟨rfl, rfl⟩
    · split
      · split_ifs
        · exact ⟨rfl, rfl⟩
        · exact ⟨rfl, rfl⟩
      · exact ⟨rfl, rfl⟩

theorem Good.leave (h : Good d) (w : WaitKind) (ready : Bool) : Good (methods.leave w ready d).1 := by
  obtain ⟨hready, houtcome⟩ := leave_outcome w ready d
  refine ⟨fun hn => ?_, fun hd => ?_⟩
  · rw [hready] at hn
    obtain rfl := h.empty hn
    cases w <;> rfl
  · rw [houtcome]
    exact h.full (hready ▸ hd)

theorem Good.enter (h : Good d) (a : Call V E) : Good (methods.enter a d).1 := by
  cases hd : d.ready with
  | true =>
    rw [(enter_ready hd a).1]
    exact h
  | false =>
    rcases enter_not_ready h hd a with ⟨x, _, _, hready, houtcome⟩ | ⟨w, _, he⟩
    · refine ⟨fun hn => ?_, fun _ => by rw [houtcome]; rfl⟩
      rw [hready] at hn
      exact absurd hn (by simp)
    · rw [he]
      exact h

theorem leave_agrees (h : Good d) (hd : d.ready = true) (w : WaitKind)
    (hmoved : ∀ moves, w = .get moves → d.moved = false) :
    Agrees d.outcome (methods.leave w true d).2 := by
  obtain ⟨x, hx⟩ := Option.isSome_iff_exists.mp (h.full hd)
  rw [outcome, if_pos hd] at hx
  cases w with
  | wait _ => exact h.full hd
  | get moves =>
    rw [outcome, if_pos hd]
    simp only [methods, get, hmoved moves rfl]
    cases hexcept : d.except with
    | some e => rfl
    | none =>
      cases hstorage : d.storage with
      | some value => rfl
      | none =>
        rw [hexcept, hstorage] at hx
        exact absurd hx (by simp)
  | getExceptionPtr =>
    rw [outcome, if_pos hd]
    cases hexcept : d.except with
    | some e => exact congrArg some hexcept.symm
    | none =>
      cases hstorage : d.storage with
      | some value => exact congrArg some hexcept.symm
      | none =>
        rw [hexcept, hstorage] at hx
        exact absurd hx (by simp)

theorem laws : Laws (methods (V := V) (E := E)) Good (fun _ _ => True) fun _ d => d.ready = false := by
  refine ⟨fun a _ h => h.enter a, fun w ready _ h => h.leave w ready, fun _ _ _ _ _ => trivial,
    fun _ _ _ _ _ => trivial, fun _ _ _ _ _ _ => trivial, fun a d _ h _ hd hnot => ?_,
    fun w ready d _ _ hd => ?_⟩
  · rcases enter_not_ready h hd a with ⟨x, _, hout, _⟩ | ⟨w, _, he⟩
    · exact absurd hout (hnot _)
    · rw [he]
      exact hd
  · rw [(leave_outcome w ready d).1]
    exact hd

end SharedState

end Dumbo.Fiber
