import Dumbo.Disruptor.MpscDelivery
import Dumbo.Reactor.Call

/-!
# The bounded inbox of a single reactor

An application with one reactor: the calls of its fibers over the `MPSCQueue` of 1024 slots that
carries them. The one thread is the queue's only producer and its only consumer. A submission
takes effect when its `send` has published, and until then the thread does nothing else.
-/

namespace Dumbo.Reactor.Inbox

open Transition Disruptor

set_option linter.unusedSimpArgs false

abbrev MsgId := Call.MsgId

variable {ε ρ : Type}

/-- `BufferSize`, 1024 -/
def logSize : Nat := 10

/-- The number of the producer that is the reactor's own thread. -/
def self : Mpsc.ThreadId := 0

structure State (ε ρ : Type) where
  calls : Call.State ε ρ
  queue : Mpsc.State MsgId
  /-- the submission the thread is inside of -/
  sending : Option (Call.Action ε ρ)
  /-- the messages submitted since the last turn of `receive_all` -/
  since : Nat
  /-- the messages submitted so far -/
  total : Nat

/-- The message that a step passes to `submit_to`. -/
def submission (s : Call.State ε ρ) : Call.Action ε ρ → Option MsgId
  | .submit f =>
    match (s.fiber f).call with
    | some (m, .made _ _) => some m
    | _ => none
  | .complete f =>
    match (s.fiber f).handler with
    | some (m, .processed) =>
      match s.heap m with
      | some msg => if msg.oneWay then none else some m
      | none => none
    | _ => none
  | _ => none

/-- The steps of the event loop that use the queue. -/
def isReceive : Call.Action ε ρ → Bool
  | .receiveAll _ | .deliver _ => true
  | _ => false

inductive Action (ε ρ : Type)
  | call (a : Call.Action ε ρ)
  | send (a : Call.Action ε ρ)
  /-- the next atomic operation inside `send` -/
  | advance
  | receiveAll
  | deliver
  | commit
  | finishBatch

/-- The thread is neither inside `send` nor inside `receive_all`. -/
def State.free (s : State ε ρ) : Bool :=
  s.sending.isNone && match s.queue.consumer with
    | .idle => true
    | _ => false

/-- One step of the thread. -/
def step [Inhabited ρ] (longMax : Nat) (s : State ε ρ) : Action ε ρ → Option (State ε ρ)
  | .call a =>
    if s.free ∧ isReceive a = false ∧ submission s.calls a = none then
      (Call.step 1 s.calls a).map fun c => { s with calls := c }
    else none
  | .send a =>
    match submission s.calls a, Call.step 1 s.calls a with
    | some m, some _ =>
      if s.free then
        (Mpsc.step logSize longMax s.queue (.send self m)).map fun q =>
          { s with queue := q, sending := some a, since := s.since + 1, total := s.total + 1 }
      else none
    | _, _ => none
  | .advance =>
    match s.sending, s.queue.producer self with
    | some _, .claim _ =>
      (Mpsc.step logSize longMax s.queue (.claim self)).map fun q => { s with queue := q }
    | some _, .gate _ _ =>
      (Mpsc.step logSize longMax s.queue (.pass self)).map fun q => { s with queue := q }
    | some _, .write _ _ =>
      (Mpsc.step logSize longMax s.queue (.write self)).map fun q => { s with queue := q }
    | some _, .synchronize _ =>
      (Mpsc.step logSize longMax s.queue (.synchronize self)).map fun q => { s with queue := q }
    | some a, .publish _ =>
      match Mpsc.step logSize longMax s.queue (.publish self), Call.step 1 s.calls a with
      | some q, some c => some { s with calls := c, queue := q, sending := none }
      | _, _ => none
    | _, _ => none
  | .receiveAll =>
    if s.free then
      match Mpsc.step logSize longMax s.queue (.get none), Call.step 1 s.calls (.receiveAll 0) with
      | some q, some c => some { s with calls := c, queue := q, since := 0 }
      | _, _ => none
    else none
  | .deliver =>
    match Mpsc.step logSize longMax s.queue .deliver, Call.step 1 s.calls (.deliver 0) with
    | some q, some c => some { s with calls := c, queue := q }
    | _, _ => none
  | .commit =>
    (Mpsc.step logSize longMax s.queue .commit).map fun q => { s with queue := q }
  | .finishBatch =>
    (Mpsc.step logSize longMax s.queue .finishBatch).map fun q => { s with queue := q }

def machine [Inhabited ρ] (longMax : Nat) : Machine (State ε ρ) (Action ε ρ) where
  start := ⟨Call.initial, Mpsc.initial, none, 0, 0⟩
  step := step longMax

/-- The wait loop of `IncrementAndGet` does not end in this state. -/
def State.spins (s : State ε ρ) (longMax : Nat) : Prop :=
  ∃ q v, s.queue.producer self = .gate q v ∧
    hasRoom longMax s.queue.lastConsumer [s.queue.consumerSequence] (wrapPoint q (2 ^ logSize)) = false

/-- How far the thread is in its own queue. -/
structure Alone (s : State ε ρ) : Prop where
  others : ∀ p ≠ self, s.queue.producer p = .idle
  sending : s.sending = none ↔ s.queue.producer self = .idle
  total : (s.total : Int) =
    s.queue.lastClaimed + 1 + (s.queue.producer self).unclaimed.length
  receiving : s.queue.consumer ≠ .idle → s.sending = none ∧ s.since = 0
  idle : s.queue.consumer = .idle → s.queue.nextSequence = s.queue.consumerSequence + 1 ∧
    s.queue.available < s.queue.nextSequence ∧
    (s.since : Int) = s.queue.lastClaimed - s.queue.consumerSequence +
      (s.queue.producer self).unclaimed.length
  deliver : ∀ c size, s.queue.consumer = .deliver c size →
    s.queue.nextSequence + size = s.queue.lastClaimed + 1 ∧ s.queue.available = s.queue.lastClaimed
  finish : s.queue.consumer = .finishBatch → s.queue.nextSequence = s.queue.lastClaimed + 1

variable {longMax : Nat} {s t : State ε ρ}

theorem State.free_iff (s : State ε ρ) :
    s.free ↔ s.sending = none ∧ s.queue.consumer = .idle := by
  simp only [State.free, Bool.and_eq_true, Option.isNone_iff_eq_none]
  cases s.queue.consumer <;> simp

/-- Between two submissions everything claimed is published. -/
theorem Alone.cursor (ha : Alone s) (hi : Mpsc.Inv logSize s.queue)
    (hidle : s.queue.producer self = .idle) : s.queue.cursor = s.queue.lastClaimed := by
  by_contra hne
  obtain ⟨p, hp⟩ := hi.pending s.queue.lastClaimed (by have := hi.cursor; omega) le_rfl
  by_cases hself : p = self
  · simp [hself, hidle, Mpsc.ProducerPc.held] at hp
  · simp [ha.others p hself, Mpsc.ProducerPc.held] at hp

theorem Alone.held (ha : Alone s) (hi : Mpsc.Inv logSize s.queue) {q : Int}
    (h : (s.queue.producer self).held = some q) : q = s.queue.lastClaimed := by
  obtain ⟨hlt, hle, -⟩ := (hi.producer self).held q h
  obtain ⟨p, hp⟩ := hi.pending s.queue.lastClaimed (by omega) le_rfl
  by_cases hself : p = self
  · rw [hself, h, Option.some.injEq] at hp
    exact hp
  · simp [ha.others p hself, Mpsc.ProducerPc.held] at hp

theorem Alone.setProducer (ha : Alone s) (hs : s.sending ≠ none) (pc : Mpsc.ProducerPc MsgId)
    (hpc : pc ≠ .idle) (hun : pc.unclaimed = []) {q : Mpsc.State MsgId}
    (hq : q.producer = Function.update s.queue.producer self pc)
    (hcons : q.consumer = s.queue.consumer) (hnext : q.nextSequence = s.queue.nextSequence)
    (hav : q.available = s.queue.available) (hseq : q.consumerSequence = s.queue.consumerSequence)
    (hlast : q.lastClaimed = s.queue.lastClaimed + (s.queue.producer self).unclaimed.length) :
    Alone { s with queue := q } := by
  have hidle : s.queue.consumer = .idle := by
    by_contra hne
    exact hs (ha.receiving hne).1
  obtain ⟨h1, h2, h3⟩ := ha.idle hidle
  have htotal := ha.total
  refine ⟨fun p hne => ?_, ?_, ?_, ?_, fun _ => ⟨?_, ?_, ?_⟩, ?_, ?_⟩
  · simp [hq, hne, ha.others p hne]
  · simp [hq, hs, hpc]
  · simp only [hq, Function.update_self, hun, List.length_nil, hlast]
    omega
  · simp [hcons, hidle]
  · simp only [hnext, hseq, h1]
  · simp only [hav, hnext, h2]
  · simp only [hq, Function.update_self, hun, List.length_nil, hlast, hseq]
    omega
  · intro c size h
    simp [hcons, hidle] at h
  · intro h
    simp [hcons, hidle] at h

variable [Inhabited ρ]

theorem parts_reachable (h : (machine longMax).Reachable s) :
    (Call.machine 1).Reachable s.calls ∧ (Mpsc.machine logSize longMax).Reachable s.queue := by
  refine h.invariant (P := fun s : State ε ρ => (Call.machine 1).Reachable s.calls ∧
    (Mpsc.machine logSize longMax).Reachable s.queue) ⟨.start, .start⟩ ?_
  intro s a t ⟨hc, hq⟩ hs
  have hcall {b : Call.Action ε ρ} {c : Call.State ε ρ} (h : Call.step 1 s.calls b = some c) :
      (Call.machine 1).Reachable c := .step hc trivial h
  have hqueue {b : Mpsc.Action MsgId} {q : Mpsc.State MsgId}
      (h : Mpsc.step logSize longMax s.queue b = some q) :
      (Mpsc.machine logSize longMax).Reachable q := .step hq trivial h
  cases a <;> simp only [machine, step] at hs
  case call a =>
    split at hs
    · obtain ⟨c, hc', rfl⟩ := Option.map_eq_some_iff.mp hs
      exact ⟨hcall hc', hq⟩
    · cases hs
  case send a =>
    split at hs
    · split at hs
      · obtain ⟨q, hq', rfl⟩ := Option.map_eq_some_iff.mp hs
        exact ⟨hc, hqueue hq'⟩
      · cases hs
    · cases hs
  case advance =>
    split at hs
    case h_5 =>
      split at hs <;> cases hs
      rename_i hq' hc'
      exact ⟨hcall hc', hqueue hq'⟩
    case h_6 => cases hs
    all_goals
      obtain ⟨q, hq', rfl⟩ := Option.map_eq_some_iff.mp hs
      exact ⟨hc, hqueue hq'⟩
  case receiveAll =>
    split at hs
    · split at hs <;> cases hs
      rename_i hq' hc'
      exact ⟨hcall hc', hqueue hq'⟩
    · cases hs
  case deliver =>
    split at hs <;> cases hs
    rename_i hq' hc'
    exact ⟨hcall hc', hqueue hq'⟩
  all_goals
    obtain ⟨q, hq', rfl⟩ := Option.map_eq_some_iff.mp hs
    exact ⟨hc, hqueue hq'⟩

theorem alone_initial : Alone (machine (ε := ε) (ρ := ρ) longMax).start where
  others _ _ := rfl
  sending := ⟨fun _ => rfl, fun _ => rfl⟩
  total := by simp [machine, Mpsc.initial, kInitialCursorValue, Mpsc.ProducerPc.unclaimed]
  receiving h := absurd rfl h
  idle _ := by
    simp [machine, Mpsc.initial, kInitialCursorValue, Mpsc.ProducerPc.unclaimed]
  deliver c size h := by cases h
  finish h := by cases h

theorem Alone.step_send (ha : Alone s) {a : Call.Action ε ρ}
    (h : step longMax s (.send a) = some t) : Alone t := by
  simp only [step] at h
  split at h
  · rename_i m c hm hc
    split at h
    · rename_i hfree
      obtain ⟨hnone, hcons⟩ := s.free_iff.mp hfree
      obtain ⟨q, hq, rfl⟩ := Option.map_eq_some_iff.mp h
      have hp := ha.sending.mp hnone
      simp only [Mpsc.step, hp, Option.some.injEq] at hq
      subst hq
      obtain ⟨hnext, hav, hsince⟩ := ha.idle hcons
      have htotal := ha.total
      simp only [hp, Mpsc.ProducerPc.unclaimed, List.length_nil] at hsince htotal
      refine ⟨fun p hne => ?_, ?_, ?_, fun h => absurd hcons h, fun _ => ⟨hnext, hav, ?_⟩, ?_, ?_⟩
      · simp [Mpsc.State.setProducer, hne, ha.others p hne]
      · simp [Mpsc.State.setProducer]
      · simp only [Mpsc.State.setProducer, Function.update_self, Mpsc.ProducerPc.unclaimed,
          List.length_singleton]
        omega
      · simp only [Mpsc.State.setProducer, Function.update_self, Mpsc.ProducerPc.unclaimed,
          List.length_singleton]
        omega
      · intro c size h
        simp [Mpsc.State.setProducer, hcons] at h
      · intro h
        simp [Mpsc.State.setProducer, hcons] at h
    · cases h
  · cases h

theorem Alone.step_advance (ha : Alone s) (h : step longMax s .advance = some t) : Alone t := by
  simp only [step] at h
  split at h
  case h_5 a hs hp =>
    split at h <;> cases h
    rename_i q c hq hc
    simp only [Mpsc.step, hp, Option.some.injEq] at hq
    subst hq
    have hidle : s.queue.consumer = .idle := by
      by_contra hne
      simp [(ha.receiving hne).1] at hs
    obtain ⟨h1, h2, h3⟩ := ha.idle hidle
    have htotal := ha.total
    simp only [hp, Mpsc.ProducerPc.unclaimed, List.length_nil] at h3 htotal
    refine ⟨fun p hne => ?_, ?_, ?_, ?_, fun _ => ⟨h1, h2, ?_⟩, ?_, ?_⟩
    · simp [Mpsc.State.setProducer, hne, ha.others p hne]
    · simp [Mpsc.State.setProducer]
    · simpa [Mpsc.State.setProducer, Mpsc.ProducerPc.unclaimed] using htotal
    · simp [Mpsc.State.setProducer, hidle]
    · simpa [Mpsc.State.setProducer, Mpsc.ProducerPc.unclaimed] using h3
    · intro c size h
      simp [Mpsc.State.setProducer, hidle] at h
    · intro h
      simp [Mpsc.State.setProducer, hidle] at h
  case h_6 => cases h
  all_goals
    rename_i a _ hs hp
    have hne : s.sending ≠ none := by simp [hs]
    obtain ⟨q, hq, rfl⟩ := Option.map_eq_some_iff.mp h
    simp only [Mpsc.step, hp, Option.some.injEq, Option.ite_none_right_eq_some,
      Option.ite_none_left_eq_some] at hq
  case h_1 =>
    subst hq
    exact ha.setProducer hne (.gate _ _) (by simp) rfl rfl rfl rfl rfl rfl
      (by simp [hp, Mpsc.ProducerPc.unclaimed])
  case h_2 =>
    obtain ⟨-, rfl⟩ := hq
    exact ha.setProducer hne (.write _ _) (by simp) rfl rfl rfl rfl rfl rfl
      (by simp [hp, Mpsc.ProducerPc.unclaimed, Mpsc.State.setProducer])
  case h_3 =>
    subst hq
    exact ha.setProducer hne (.synchronize _) (by simp) rfl rfl rfl rfl rfl rfl
      (by simp [hp, Mpsc.ProducerPc.unclaimed, Mpsc.State.setProducer])
  case h_4 =>
    obtain ⟨-, rfl⟩ := hq
    exact ha.setProducer hne (.publish _) (by simp) rfl rfl rfl rfl rfl rfl
      (by simp [hp, Mpsc.ProducerPc.unclaimed, Mpsc.State.setProducer])

theorem Alone.step_receiveAll (ha : Alone s) (hi : Mpsc.Inv logSize s.queue)
    (h : step longMax s .receiveAll = some t) : Alone t := by
  simp only [step] at h
  split at h
  · rename_i hfree
    obtain ⟨hnone, hidle⟩ := s.free_iff.mp hfree
    split at h <;> cases h
    rename_i q c hq hc
    obtain ⟨h1, h2, h3⟩ := ha.idle hidle
    have hp := ha.sending.mp hnone
    have hcur := ha.cursor hi hp
    have hnext := hi.consumer.next
    have hseq := hi.consumer.sequence
    have hopen : ¬ s.queue.nextSequence ≤ s.queue.available := by omega
    simp only [hp, Mpsc.ProducerPc.unclaimed, List.length_nil] at h3
    simp only [Mpsc.step, hidle, Option.some.injEq] at hq
    subst hq
    simp only [Mpsc.State.beginGet, Mpsc.State.hasEvents, Mpsc.State.isBatch, hopen,
      decide_false, Bool.false_eq_true, if_false, ← h1, dontWaitFor, kNotReadySignal]
    by_cases hempty : s.queue.cursor < s.queue.nextSequence
    · have hle : ¬ s.queue.nextSequence ≤ -4 := by omega
      simp only [if_pos hempty, if_neg hle, if_true]
      refine ⟨ha.others, ha.sending, ha.total, fun h => absurd hidle h, fun _ => ⟨h1, ?_, ?_⟩, ?_, ?_⟩
      · simp only
        omega
      · simp only [hp, Mpsc.ProducerPc.unclaimed, List.length_nil]
        omega
      · intro c size h
        simp [hidle] at h
      · intro h
        simp [hidle] at h
    · have hle : s.queue.nextSequence ≤ s.queue.cursor := by omega
      have hsize : (s.queue.cursor - s.queue.nextSequence + 1).toNat ≠ 0 := by omega
      simp only [if_neg hempty, if_pos hle, if_neg hsize]
      refine ⟨ha.others, ha.sending, ha.total, fun _ => ⟨hnone, rfl⟩, ?_, ?_, ?_⟩
      · simp
      · intro c size h
        simp only [Mpsc.ConsumerPc.deliver.injEq] at h
        obtain ⟨-, rfl⟩ := h
        simp only
        omega
      · simp
  · cases h

theorem Alone.step_deliver (ha : Alone s) (h : step longMax s .deliver = some t) : Alone t := by
  simp only [step] at h
  split at h <;> cases h
  rename_i q c hq hc
  simp only [Mpsc.step] at hq
  split at hq <;> simp only [Option.ite_none_right_eq_some, Option.some.injEq, reduceCtorEq] at hq
  rename_i c size hpc
  obtain ⟨hlt, rfl⟩ := hq
  obtain ⟨h1, h2⟩ := ha.deliver c size hpc
  refine ⟨ha.others, ha.sending, ha.total, fun _ => ha.receiving (by simp [hpc]), by simp, ?_, by simp⟩
  intro c' size' h
  simp only [Mpsc.ConsumerPc.deliver.injEq] at h
  obtain ⟨-, rfl⟩ := h
  exact ⟨h1, h2⟩

theorem Alone.step_commit (ha : Alone s) (h : step longMax s .commit = some t) : Alone t := by
  simp only [step] at h
  obtain ⟨q, hq, rfl⟩ := Option.map_eq_some_iff.mp h
  simp only [Mpsc.step] at hq
  split at hq <;> simp only [Option.ite_none_left_eq_some, Option.some.injEq, reduceCtorEq] at hq
  rename_i c size hpc
  obtain ⟨hge, rfl⟩ := hq
  obtain ⟨h1, h2⟩ := ha.deliver c size hpc
  -- `get_all` takes everything there is, so the batch is over
  have hover : ¬ s.queue.nextSequence + size ≤ s.queue.available := by omega
  simp only [Mpsc.State.isBatch, hover, decide_false, Bool.false_eq_true, if_false]
  exact ⟨ha.others, ha.sending, ha.total, fun _ => ha.receiving (by simp [hpc]), by simp, by simp,
    fun _ => h1⟩

theorem Alone.step_finishBatch (ha : Alone s) (hi : Mpsc.Inv logSize s.queue)
    (h : step longMax s .finishBatch = some t) : Alone t := by
  simp only [step] at h
  obtain ⟨q, hq, rfl⟩ := Option.map_eq_some_iff.mp h
  simp only [Mpsc.step] at hq
  split at hq <;> simp only [Option.some.injEq, reduceCtorEq] at hq
  rename_i hpc
  subst hq
  have hnext := ha.finish hpc
  have hav := hi.consumer.finish hpc
  obtain ⟨hnone, hsince⟩ := ha.receiving (by simp [hpc])
  refine ⟨ha.others, ha.sending, ha.total, by simp, fun _ => ⟨by simp, hav, ?_⟩, by simp, by simp⟩
  simp only [ha.sending.mp hnone, Mpsc.ProducerPc.unclaimed, List.length_nil, hsince]
  omega

theorem alone_reachable (h : (machine longMax).Reachable s) : Alone s := by
  induction h with
  | start => exact alone_initial
  | @step s a t hr _ hs ih =>
    have hi := Mpsc.inv_reachable (by decide) (parts_reachable hr).2
    cases a with
    | call a =>
      simp only [machine, step] at hs
      split at hs
      · obtain ⟨c, -, rfl⟩ := Option.map_eq_some_iff.mp hs
        exact ⟨ih.others, ih.sending, ih.total, ih.receiving, ih.idle, ih.deliver, ih.finish⟩
      · cases hs
    | send a => exact ih.step_send hs
    | advance => exact ih.step_advance hs
    | receiveAll => exact ih.step_receiveAll hi hs
    | deliver => exact ih.step_deliver hs
    | commit => exact ih.step_commit hs
    | finishBatch => exact ih.step_finishBatch hi hs

/-- The thread waits for itself exactly when more messages than the ring has slots were submitted
since the last turn of the event loop, or when the claim lies more than the ring beyond `LONG_MAX`,
the start value of `GetMinimumSequence`. -/
theorem spins_iff (h : (machine longMax).Reachable s) : s.spins longMax ↔
    (∃ q v, s.queue.producer self = .gate q v) ∧
      (2 ^ logSize < s.since ∨ longMax + 2 ^ logSize + 1 < s.total) := by
  have ha := alone_reachable h
  have hi := Mpsc.inv_reachable (by decide) (parts_reachable h).2
  have hgate {q : Int} {v : MsgId} (hq : s.queue.producer self = .gate q v) :
      hasRoom longMax s.queue.lastConsumer [s.queue.consumerSequence] (wrapPoint q (2 ^ logSize)) =
        false ↔ 2 ^ logSize < s.since ∨ longMax + 2 ^ logSize + 1 < s.total := by
    have hlast := ha.held hi (q := q) (by simp [hq, Mpsc.ProducerPc.held])
    have hidle : s.queue.consumer = .idle := by
      by_contra hne
      have hnone := (ha.receiving hne).1
      simp [ha.sending.mp hnone] at hq
    obtain ⟨-, -, hsince⟩ := ha.idle hidle
    have htotal := ha.total
    have hseq := hi.consumer.sequence.1
    simp only [hq, Mpsc.ProducerPc.unclaimed, List.length_nil] at hsince htotal
    rw [hasRoom_eq_false, hi.lastConsumer]
    simp only [wrapPoint, logSize]
    omega
  constructor
  · rintro ⟨q, v, hq, hroom⟩
    exact ⟨⟨q, v, hq⟩, (hgate hq).mp hroom⟩
  · rintro ⟨⟨q, v, hq⟩, hcount⟩
    exact ⟨q, v, hq, (hgate hq).mpr hcount⟩

/-- The thread that waits for room in its own inbox can do nothing else. -/
theorem stuck_of_spins (h : (machine longMax).Reachable s) (hspins : s.spins longMax)
    (a : Action ε ρ) : step longMax s a = none := by
  obtain ⟨q, v, hq, hroom⟩ := hspins
  have ha := alone_reachable h
  have hsend : s.sending ≠ none := fun hnone => by simp [ha.sending.mp hnone] at hq
  have hidle : s.queue.consumer = .idle := by
    by_contra hne
    exact hsend (ha.receiving hne).1
  have hfree : s.free = false := by
    rw [Bool.eq_false_iff, ne_eq, State.free_iff]
    exact fun hf => hsend hf.1
  obtain ⟨b, hb⟩ := Option.ne_none_iff_exists'.mp hsend
  cases a with
  | call a => simp [step, hfree]
  | send a =>
    simp only [step, hfree]
    split <;> rfl
  | advance => simp [step, hb, hq, Mpsc.step, hroom]
  | receiveAll => simp [step, hfree]
  | deliver => simp [step, Mpsc.step, hidle]
  | commit => simp [step, Mpsc.step, hidle]
  | finishBatch => simp [step, Mpsc.step, hidle]

/-- The condition on the runs: a message is submitted only while fewer than 1024 were submitted
since the last turn of the event loop, and fewer than `LONG_MAX + 1025` in all. -/
def sendOk (longMax : Nat) (s : State ε ρ) : Action ε ρ → Bool
  | .send _ => s.since < 2 ^ logSize && s.total < longMax + 2 ^ logSize + 1
  | _ => true

theorem counts_of_sendOk (h : (machine longMax).ReachableWith (fun s a => sendOk longMax s a) s) :
    s.since ≤ 2 ^ logSize ∧ s.total ≤ longMax + 2 ^ logSize + 1 := by
  refine h.invariant (P := fun s : State ε ρ =>
    s.since ≤ 2 ^ logSize ∧ s.total ≤ longMax + 2 ^ logSize + 1) (by simp [machine]) ?_
  intro s a t hi hok hs
  cases a <;> simp only [machine, step] at hs
  case call a =>
    split at hs
    · obtain ⟨c, -, rfl⟩ := Option.map_eq_some_iff.mp hs
      exact hi
    · cases hs
  case send a =>
    simp only [sendOk, Bool.and_eq_true, decide_eq_true_eq] at hok
    split at hs
    · split at hs
      · obtain ⟨q, -, rfl⟩ := Option.map_eq_some_iff.mp hs
        exact hok
      · cases hs
    · cases hs
  case advance =>
    split at hs
    case h_5 => split at hs <;> cases hs; exact hi
    case h_6 => cases hs
    all_goals
      obtain ⟨q, -, rfl⟩ := Option.map_eq_some_iff.mp hs
      exact hi
  case receiveAll =>
    split at hs
    · split at hs <;> cases hs
      exact ⟨Nat.zero_le _, hi.2⟩
    · cases hs
  case deliver =>
    split at hs <;> cases hs
    exact hi
  all_goals
    obtain ⟨q, -, rfl⟩ := Option.map_eq_some_iff.mp hs
    exact hi

/-- No run that keeps to `sendOk` has the reactor waiting for room in its own inbox. -/
theorem inbox_has_room (h : (machine longMax).ReachableWith (fun s a => sendOk longMax s a) s) :
    ¬ s.spins longMax := by
  intro hspins
  have hcounts := counts_of_sendOk h
  have hover := ((spins_iff h.reachable).mp hspins).2
  omega

/-- The first submission of a run, at the wait loop of its claim. -/
theorem inbox_has_room_first : ∃ s : State Unit Unit, s.queue.producer self = .gate 0 0 ∧
    ¬ s.spins (2 ^ 63 - 1) := by
  obtain ⟨s, hs, hg⟩ : ∃ s : State Unit Unit,
      ((machine (2 ^ 63 - 1)).guarded (sendOk (2 ^ 63 - 1))).exec (machine (2 ^ 63 - 1)).start
        [.call (.spawn 0), .call (.schedule 0), .call (.runAtAsync 0 0), .send (.submit 0),
          .advance] = some s ∧ s.queue.producer self = .gate 0 0 := ⟨_, rfl, rfl⟩
  exact ⟨s, hg, inbox_has_room (Machine.reachableWith_of_exec hs)⟩

/-- The application's fiber runs its own code. -/
structure Ready (s : State ε ρ) : Prop where
  free : s.free
  fiber : s.calls.fiber 0 = ⟨0, .active, false, none, none⟩
  active : s.calls.active 0 = some 0

theorem reachable_step {a : Action ε ρ} (hr : (machine longMax).Reachable s)
    (h : step longMax s a = some t) : (machine longMax).Reachable t :=
  Machine.ReachableWith.step (M := machine longMax) hr trivial h

theorem Ready.claim (hr : (machine longMax).Reachable s) (h : Ready s) :
    ∃ t : State ε ρ, (machine longMax).Reachable t ∧ t.calls = s.calls.make 0 0 true ∧
      t.sending = some (.submit 0) ∧ (∃ q v, t.queue.producer self = .gate q v) ∧
      t.since = s.since + 1 ∧ t.total = s.total + 1 := by
  obtain ⟨hnone, hidle⟩ := s.free_iff.mp h.free
  have hp := (alone_reachable hr).sending.mp hnone
  have hmake : step longMax s (.call (.runAtAsync 0 0)) =
      some { s with calls := s.calls.make 0 0 true } := by
    simp [step, h.free, isReceive, submission, Call.step, Call.State.hasControl, h.fiber, h.active,
      Call.Fiber.inUserCode]
  have hsubmit : ∃ c, Call.step 1 (s.calls.make 0 0 true) (.submit 0) = some c := by
    simp [Call.step, Call.State.make, Call.State.log, Call.State.setFiber, Call.State.store,
      Call.State.hasControl, h.fiber, h.active]
  obtain ⟨c, hc⟩ := hsubmit
  have hmsg : submission (s.calls.make 0 0 true) (.submit 0) = some s.calls.nmsgs := by
    simp [submission, Call.State.make, Call.State.log, Call.State.setFiber]
  have hfree : State.free { s with calls := s.calls.make 0 0 true } := h.free
  obtain ⟨q, hq⟩ : ∃ q, Mpsc.step logSize longMax s.queue (.send self s.calls.nmsgs) = some q := by
    simp [Mpsc.step, hp]
  have hsend : step longMax { s with calls := s.calls.make 0 0 true } (.send (.submit 0)) =
      some { s with
        calls := s.calls.make 0 0 true, queue := q, sending := some (.submit 0),
        since := s.since + 1, total := s.total + 1 } := by
    simp [step, hmsg, hc, hfree, hq]
  have hqc : q.producer self = .claim s.calls.nmsgs := by
    simp only [Mpsc.step, hp, Option.some.injEq] at hq
    subst hq
    simp [Mpsc.State.setProducer]
  obtain ⟨q', hq'⟩ : ∃ q', Mpsc.step logSize longMax q (.claim self) = some q' := by
    simp [Mpsc.step, hqc]
  have hqg : q'.producer self = .gate (q.lastClaimed + 1) s.calls.nmsgs := by
    simp only [Mpsc.step, hqc, Option.some.injEq] at hq'
    subst hq'
    simp [Mpsc.State.setProducer]
  have hclaim : step longMax { s with
        calls := s.calls.make 0 0 true, queue := q, sending := some (.submit 0),
        since := s.since + 1, total := s.total + 1 } .advance = some { s with
        calls := s.calls.make 0 0 true, queue := q', sending := some (.submit 0),
        since := s.since + 1, total := s.total + 1 } := by
    simp [step, hqc, hq']
  exact ⟨_, reachable_step (reachable_step (reachable_step hr hmake) hsend) hclaim, rfl, rfl,
    ⟨_, _, hqg⟩, rfl, rfl⟩

theorem Ready.runAtAsync (hr : (machine longMax).Reachable s) (h : Ready s)
    (hsince : s.since < 2 ^ logSize) (htotal : s.total < longMax + 2 ^ logSize + 1) :
    ∃ t : State ε ρ, (machine longMax).Reachable t ∧ Ready t ∧ t.since = s.since + 1 ∧
      t.total = s.total + 1 := by
  obtain ⟨t, ht, hcalls, hsend, ⟨n, v, hg⟩, hs1, hs2⟩ := h.claim hr
  have ha := alone_reachable ht
  have hi := Mpsc.inv_reachable (by decide) (parts_reachable ht).2
  have hroom : hasRoom longMax t.queue.lastConsumer [t.queue.consumerSequence]
      (wrapPoint n (2 ^ logSize)) = true := by
    by_contra hno
    have hspins := (spins_iff ht).mp ⟨n, v, hg, by simpa using hno⟩
    omega
  obtain ⟨q1, hq1⟩ : ∃ q, Mpsc.step logSize longMax t.queue (.pass self) = some q := by
    simp [Mpsc.step, hg, hroom]
  have hg1 : q1.producer self = .write n v ∧ q1.consumer = t.queue.consumer := by
    simp only [Mpsc.step, hg, hroom, if_true, Option.some.injEq] at hq1
    subst hq1
    simp [Mpsc.State.setProducer]
  obtain ⟨q2, hq2⟩ : ∃ q, Mpsc.step logSize longMax q1 (.write self) = some q := by
    simp [Mpsc.step, hg1]
  have hg2 : q2.producer self = .synchronize n ∧ q2.consumer = t.queue.consumer := by
    simp only [Mpsc.step, hg1, Option.some.injEq] at hq2
    subst hq2
    simp [Mpsc.State.setProducer, hg1]
  have hr2 : (machine longMax).Reachable { t with queue := q2 } :=
    reachable_step (a := .advance) (reachable_step (a := .advance) (t := { t with queue := q1 }) ht
      (by simp [step, hsend, hg, hq1])) (by simp [step, hsend, hg1, hq2])
  -- the one producer never waits for another claim
  have hcursor : ¬ q2.cursor < n - 1 := by
    intro hlt
    have ha2 := alone_reachable hr2
    have hi2 := Mpsc.inv_reachable (by decide) (parts_reachable hr2).2
    have hlast := ha2.held hi2 (q := n) (by simp [hg2, Mpsc.ProducerPc.held])
    obtain ⟨p, hp⟩ := hi2.pending (n - 1) (by simpa using hlt) (by omega)
    by_cases hself : p = self
    · simp [hself, hg2, Mpsc.ProducerPc.held] at hp
      omega
    · have hother : q2.producer p = .idle := ha2.others p hself
      simp [hother, Mpsc.ProducerPc.held] at hp
  obtain ⟨q3, hq3⟩ : ∃ q, Mpsc.step logSize longMax q2 (.synchronize self) = some q := by
    simp [Mpsc.step, hg2, hcursor]
  have hg3 : q3.producer self = .publish n ∧ q3.consumer = t.queue.consumer := by
    simp only [Mpsc.step, hg2, hcursor, if_false, Option.some.injEq] at hq3
    subst hq3
    simp [Mpsc.State.setProducer, hg2]
  obtain ⟨q4, hq4⟩ : ∃ q, Mpsc.step logSize longMax q3 (.publish self) = some q := by
    simp [Mpsc.step, hg3]
  have hg4 : q4.consumer = t.queue.consumer := by
    simp only [Mpsc.step, hg3, Option.some.injEq] at hq4
    subst hq4
    simp [Mpsc.State.setProducer, hg3]
  obtain ⟨c, hc, hfiber, hactive⟩ : ∃ c, Call.step 1 t.calls (.submit 0) = some c ∧
      c.fiber 0 = ⟨0, .active, false, none, none⟩ ∧ c.active 0 = some 0 := by
    rw [hcalls]
    simp [Call.step, Call.State.make, Call.State.log, Call.State.setFiber, Call.State.store,
      Call.State.hasControl, Call.State.submitTo, h.fiber, h.active]
  have hr4 : (machine longMax).Reachable { t with queue := q4, calls := c, sending := none } :=
    reachable_step (a := .advance) (reachable_step (a := .advance) (t := { t with queue := q3 }) hr2
      (by simp [step, hsend, hg2, hq3])) (by simp [step, hsend, hg3, hq4, hc])
  refine ⟨_, hr4, ⟨?_, hfiber, hactive⟩, hs1, hs2⟩
  have hidle : t.queue.consumer = .idle := by
    by_contra hne
    simp [(ha.receiving hne).1] at hsend
  rw [State.free_iff]
  exact ⟨rfl, hg4.trans hidle⟩

theorem exists_ready (n : Nat) (hn : n ≤ 2 ^ logSize) : ∃ s : State ε ρ,
    (machine longMax).Reachable s ∧ Ready s ∧ s.since = n ∧ s.total = n := by
  induction n with
  | zero =>
    have hrun : (machine (ε := ε) (ρ := ρ) longMax).exec (machine longMax).start
        [.call (.spawn 0), .call (.schedule 0)] = some _ := rfl
    exact ⟨_, Machine.reachable_of_exec hrun, ⟨rfl, rfl, rfl⟩, rfl, rfl⟩
  | succ n ih =>
    obtain ⟨s, hs, hready, hsince, htotal⟩ := ih (by omega)
    obtain ⟨t, ht, hready', h1, h2⟩ := hready.runAtAsync hs (by omega) (by omega)
    exact ⟨t, ht, hready', by omega, by omega⟩

/-- One fiber that calls `run_at_async` for its own reactor 1025 times in a row never comes back
from the last call. -/
theorem inbox_overrun : ∃ s : State Unit Unit, (machine (2 ^ 63 - 1)).Reachable s ∧
    s.spins (2 ^ 63 - 1) ∧ s.since = 1025 ∧ ∀ a, step (2 ^ 63 - 1) s a = none := by
  obtain ⟨s, hs, hready, hsince, -⟩ : ∃ s : State Unit Unit, (machine (2 ^ 63 - 1)).Reachable s ∧
      Ready s ∧ s.since = 2 ^ logSize ∧ s.total = 2 ^ logSize := exists_ready _ le_rfl
  obtain ⟨t, ht, -, -, hgate, h1, -⟩ := hready.claim hs
  have hsize : (2 : Nat) ^ logSize = 1024 := rfl
  have hspins := (spins_iff ht).mpr ⟨hgate, .inl (by omega)⟩
  exact ⟨t, ht, hspins, by omega, stuck_of_spins ht hspins⟩

end Dumbo.Reactor.Inbox
