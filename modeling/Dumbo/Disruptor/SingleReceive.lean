import Dumbo.Disruptor.MpscDelivery

/-!
# Receiving one element

`get(value)` beside `get(n, fn)` and `get_all(fn)`. It reads the slot of twice the sequence, which is the slot of
the sequence only at the multiples of the ring size: there a `get(value)` is a step of `get(1, fn)`.
-/

namespace Dumbo.Disruptor.Mpsc

open Transition

variable {T : Type}

/-- `get(value)` up to its read of the ring. -/
def State.beginGetValue (s : State T) : State T :=
  let (s', size) := s.hasEvents
  if size = 0 then s' else { s' with consumer := .deliver 0 1 }

/-- `get_event(idx)` -/
def State.getEvent (k : Nat) (s : State T) (idx : Int) : T :=
  s.events (ringIndex (2 ^ k) (s.nextSequence + idx))

/-- `get_current_event()` -/
def State.getCurrentEvent (k : Nat) (s : State T) : T :=
  s.getEvent k s.nextSequence

structure Receiver (T : Type) where
  queue : State T
  /-- in `get(value)`, before its read -/
  single : Bool

inductive ReceiverAction (T : Type)
  | queue (a : Action T)
  | getValue
  | readValue

def receiverStep (k : Nat) (longMax : Int) (s : Receiver T) : ReceiverAction T → Option (Receiver T)
  | .queue a => if s.single then
      match a with
      | .deliver => none
      | a => (step k longMax s.queue a).map fun queue => { s with queue := queue }
    else (step k longMax s.queue a).map fun queue => { s with queue := queue }
  | .getValue =>
    match s.queue.consumer with
    | .idle => some { s with
        queue := s.queue.beginGetValue
        single := s.queue.hasEvents.2 ≠ 0 }
    | _ => none
  | .readValue =>
    if s.single then
      some { s with
        queue := { s.queue with
          delivered := s.queue.delivered ++ [s.queue.getCurrentEvent k]
          consumer := .deliver 1 1 }
        single := false }
    else none

def receiver [Inhabited T] (k : Nat) (longMax : Int) : Machine (Receiver T) (ReceiverAction T) :=
  ⟨⟨initial, false⟩, receiverStep k longMax⟩

/-! ### The slot of the current event -/

/-- `get_current_event` adds `next_sequence_` to itself. -/
theorem getCurrentEvent_eq (k : Nat) (s : State T) :
    s.getCurrentEvent k = s.events (ringIndex (2 ^ k) (2 * s.nextSequence)) := by
  rw [State.getCurrentEvent, State.getEvent, Int.two_mul]

/-- The two reads take the same slot when the sequence is a multiple of the ring size, and only then. -/
theorem currentSlot_iff {k : Nat} (hk : k ≤ 64) (sequence : Int) :
    ringIndex (2 ^ k) (2 * sequence) = ringIndex (2 ^ k) sequence ↔ (2 : Int) ^ k ∣ sequence := by
  have hdiff : 2 * sequence - sequence = sequence := by omega
  rw [← Int.ofNat_inj, ringIndex_pow_two hk, ringIndex_pow_two hk, Int.emod_eq_emod_iff_emod_sub_eq_zero, hdiff]
  exact (Int.dvd_iff_emod_eq_zero ..).symm

theorem getCurrentEvent_eq_getEvent {k : Nat} (hk : k ≤ 64) {s : State T}
    (h : (2 : Int) ^ k ∣ s.nextSequence) : s.getCurrentEvent k = s.getEvent k 0 := by
  rw [getCurrentEvent_eq, (currentSlot_iff hk _).mpr h, State.getEvent, Int.add_zero]

theorem beginGetValue_eq (s : State T) : s.beginGetValue = s.beginGet (some 1) := by
  simp only [State.beginGetValue, State.beginGet]
  by_cases hsize : s.hasEvents.2 = 0
  · rw [if_pos hsize, if_pos hsize]
  · rw [if_neg hsize, if_neg hsize, Nat.min_eq_right (Nat.pos_of_ne_zero hsize)]

/-! ### Runs -/

/-- Where `get(value)` finds an event, the sequence of the event is a multiple of the ring size. -/
def getsAligned (k : Nat) (s : Receiver T) : ReceiverAction T → Bool
  | .getValue => s.queue.hasEvents.2 = 0 ∨ (2 : Int) ^ k ∣ s.queue.hasEvents.1.nextSequence
  | _ => true

variable {k : Nat} {longMax : Int} {s t : Receiver T}

theorem step_in_single {q q' : State T} {a : Action T} (hq : q.consumer = .deliver 0 1)
    (ha : a ≠ .deliver) (h : step k longMax q a = some q') :
    q'.consumer = .deliver 0 1 ∧ q'.nextSequence = q.nextSequence := by
  cases a with
  | deliver => exact absurd rfl ha
  | get requested => simp [step, hq] at h
  | commit => simp [step, hq] at h
  | finishBatch => simp [step, hq] at h
  | send p value | claim p | write p | publish p =>
    simp only [step] at h
    split at h <;> simp only [Option.some.injEq, reduceCtorEq] at h
    subst h
    exact ⟨hq, rfl⟩
  | pass p =>
    simp only [step] at h
    split at h <;> simp only [Option.ite_none_right_eq_some, Option.some.injEq, reduceCtorEq] at h
    rw [← h.2]
    exact ⟨hq, rfl⟩
  | synchronize p =>
    simp only [step] at h
    split at h <;> simp only [Option.ite_none_left_eq_some, Option.some.injEq, reduceCtorEq] at h
    rw [← h.2]
    exact ⟨hq, rfl⟩

/-- The queue has come here by batch receives only. -/
structure Batched [Inhabited T] (k : Nat) (longMax : Int) (s : Receiver T) : Prop where
  reachable : (machine k longMax).Reachable s.queue
  single : s.single = true → s.queue.consumer = .deliver 0 1 ∧ (2 : Int) ^ k ∣ s.queue.nextSequence

theorem Batched.read [Inhabited T] (hk : k ≤ 64) (h : Batched k longMax s)
    (ht : receiverStep k longMax s .readValue = some t) : step k longMax s.queue .deliver = some t.queue := by
  cases hsingle : s.single with
  | false => simp [receiverStep, hsingle] at ht
  | true =>
    simp only [receiverStep, hsingle, if_true, Option.some.injEq] at ht
    obtain ⟨hconsumer, haligned⟩ := h.single hsingle
    subst ht
    rw [getCurrentEvent_eq_getEvent hk haligned]
    simp [step, hconsumer, State.getEvent]

theorem Batched.step [Inhabited T] (hk : k ≤ 64) {a : ReceiverAction T} (h : Batched k longMax s)
    (ha : getsAligned k s a) (hs : receiverStep k longMax s a = some t) : Batched k longMax t := by
  cases a with
  | queue a =>
    cases hsingle : s.single with
    | false =>
      simp only [receiverStep, hsingle, Bool.false_eq_true, if_false, Option.map_eq_some_iff] at hs
      obtain ⟨q, hq, rfl⟩ := hs
      exact ⟨.step h.reachable trivial hq, fun hf => absurd hf Bool.false_ne_true⟩
    | true =>
      have hne : a ≠ .deliver := by
        rintro rfl
        simp [receiverStep, hsingle] at hs
      have hmap : (Mpsc.step k longMax s.queue a).map (fun queue => { s with queue := queue }) = some t := by
        cases a <;> first | exact absurd rfl hne | simpa [receiverStep, hsingle] using hs
      obtain ⟨q, hq, rfl⟩ := Option.map_eq_some_iff.mp hmap
      obtain ⟨hconsumer, haligned⟩ := h.single hsingle
      obtain ⟨hconsumer', hnext⟩ := step_in_single hconsumer hne hq
      refine ⟨.step h.reachable trivial hq, fun _ => ⟨hconsumer', ?_⟩⟩
      rw [hnext]
      exact haligned
  | getValue =>
    simp only [receiverStep] at hs
    split at hs <;> simp only [Option.some.injEq, reduceCtorEq] at hs
    rename_i hidle
    subst hs
    have hq : Mpsc.step k longMax s.queue (.get (some 1)) = some s.queue.beginGetValue := by
      simp only [Mpsc.step, hidle, beginGetValue_eq]
    have hreach : (machine k longMax).Reachable s.queue.beginGetValue :=
      .step (M := machine k longMax) (a := .get (some 1)) h.reachable trivial hq
    refine ⟨hreach, fun hsize => ?_⟩
    have hevent : s.queue.hasEvents.2 ≠ 0 := of_decide_eq_true hsize
    have haligned := (of_decide_eq_true ha).resolve_left hevent
    simp only [State.beginGetValue, if_neg hevent, true_and]
    exact haligned
  | readValue =>
    have hdeliver := h.read hk hs
    cases hsingle : s.single with
    | false => simp [receiverStep, hsingle] at hs
    | true =>
      have hreach : (machine k longMax).Reachable t.queue :=
        .step (M := machine k longMax) (a := .deliver) h.reachable trivial hdeliver
      refine ⟨hreach, fun ht => ?_⟩
      simp only [receiverStep, hsingle, if_true, Option.some.injEq] at hs
      rw [← hs] at ht
      cases ht

theorem batched_reachable [Inhabited T] (hk : k ≤ 64)
    (h : (receiver (T := T) k longMax).ReachableWith (fun s a => getsAligned k s a) s) :
    Batched k longMax s := by
  apply h.invariant (P := Batched k longMax)
  · exact ⟨.start, fun hf => absurd hf Bool.false_ne_true⟩
  · intro s a t hs ha hstep
    exact hs.step hk ha hstep

/-- In the runs in which `get(value)` is called where it finds no event or the event of a multiple of the ring
size, it is `get(1, fn)`: it finds an event when `get(1, fn)` does, and leaves the queue as that does, with the
same element handed out. So what is handed out by all three forms is what was sent, in order. At any other
sequence `get(value)` reads a slot that is not that of the sequence. -/
theorem single_receive_aligned [Inhabited T] (hk : k ≤ 64)
    (h : (receiver (T := T) k longMax).ReachableWith (fun s a => getsAligned k s a) s) :
    s.queue.delivered <+: s.queue.sent.map Prod.snd ∧
    s.queue.beginGetValue = s.queue.beginGet (some 1) ∧
    (∀ t, receiverStep k longMax s .readValue = some t → step k longMax s.queue .deliver = some t.queue) ∧
    ∀ q : State T, q.getCurrentEvent k = q.events (ringIndex (2 ^ k) (2 * q.nextSequence)) ∧
      (ringIndex (2 ^ k) (2 * q.nextSequence) = ringIndex (2 ^ k) q.nextSequence ↔
        (2 : Int) ^ k ∣ q.nextSequence) := by
  have hb := batched_reachable hk h
  refine ⟨(inv_reachable hk hb.reachable).consumer.delivered, beginGetValue_eq _, ?_, ?_⟩
  · intro t ht
    exact hb.read hk ht
  · intro q
    exact ⟨getCurrentEvent_eq k q, currentSlot_iff hk q.nextSequence⟩

/-- One element received by `get(value)` and one by `get(1, fn)`. -/
theorem single_receive_aligned_first : ∃ s : Receiver Nat, s.queue.delivered = [7, 8] ∧
    s.queue.delivered <+: s.queue.sent.map Prod.snd := by
  obtain ⟨s, hs, hd⟩ : ∃ s : Receiver Nat,
      ((receiver 10 (2 ^ 63 - 1)).guarded (getsAligned 10)).exec ⟨initial, false⟩
        [.queue (.send 0 7), .queue (.claim 0), .queue (.pass 0), .queue (.write 0),
          .queue (.synchronize 0), .queue (.publish 0), .queue (.send 0 8), .queue (.claim 0),
          .queue (.pass 0), .queue (.write 0), .queue (.synchronize 0), .queue (.publish 0), .getValue,
          .readValue, .queue .commit, .queue (.get (some 1)), .queue .deliver] = some s ∧
      s.queue.delivered = [7, 8] := ⟨_, rfl, rfl⟩
  exact ⟨s, hd, (single_receive_aligned (by decide) (Machine.reachableWith_of_exec hs)).1⟩

/-- The second `get(value)` reads the slot of sequence 2, where nothing has been written. -/
theorem single_receive_wrong : ∃ s : Receiver Nat, (receiver 10 (2 ^ 63 - 1)).Reachable s ∧
    s.queue.sent = [(0, 7), (0, 8)] ∧ s.queue.delivered = [7, 0] ∧
    ¬ s.queue.delivered <+: s.queue.sent.map Prod.snd := by
  obtain ⟨s, hs, hsent, hd⟩ : ∃ s : Receiver Nat,
      (receiver 10 (2 ^ 63 - 1)).exec ⟨initial, false⟩
        [.queue (.send 0 7), .queue (.claim 0), .queue (.pass 0), .queue (.write 0),
          .queue (.synchronize 0), .queue (.publish 0), .queue (.send 0 8), .queue (.claim 0),
          .queue (.pass 0), .queue (.write 0), .queue (.synchronize 0), .queue (.publish 0),
          .getValue, .readValue, .queue .commit, .getValue, .readValue] = some s ∧
      s.queue.sent = [(0, 7), (0, 8)] ∧ s.queue.delivered = [7, 0] := ⟨_, rfl, rfl, rfl⟩
  refine ⟨s, Machine.reachable_of_exec hs, hsent, hd, ?_⟩
  rw [hsent, hd]
  decide

end Dumbo.Disruptor.Mpsc
