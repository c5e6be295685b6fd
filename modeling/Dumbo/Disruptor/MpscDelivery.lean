import Dumbo.Disruptor.MpscQueue

/-!
# Delivery of the multi-producer queue

The invariant ties the four counters together: claims are contiguous, every claimed and
unpublished sequence is held by exactly one producer, sequences are published in order, and the
window between the published consumer sequence and the furthest producer past the capacity check
never exceeds the ring.
-/

namespace Dumbo.Disruptor.Mpsc

open Transition

variable {T : Type}

/-- The sequence a producer has claimed and not yet published. -/
def ProducerPc.held : ProducerPc T → Option Int
  | .gate q _ | .write q _ | .synchronize q | .publish q => some q
  | _ => none

/-- The producer has seen room for its sequence. -/
def ProducerPc.passed : ProducerPc T → Option Int
  | .write q _ | .synchronize q | .publish q => some q
  | _ => none

/-- The producer has stored its value. -/
def ProducerPc.stored : ProducerPc T → Option Int
  | .synchronize q | .publish q => some q
  | _ => none

/-- The value of a `send` that has not claimed its sequence yet. -/
def ProducerPc.unclaimed : ProducerPc T → List T
  | .claim v => [v]
  | _ => []

/-- The consumer's place in the batch. -/
def ConsumerPc.ahead : ConsumerPc → Nat
  | .deliver c _ => c
  | _ => 0

structure ProducerOk (k : Nat) (s : State T) (p : ThreadId) : Prop where
  held : ∀ q, (s.producer p).held = some q →
    s.cursor < q ∧ q ≤ s.lastClaimed ∧ ∃ v, s.sent[q.toNat]? = some (p, v)
  value : ∀ q v, s.producer p = .gate q v ∨ s.producer p = .write q v →
    s.sent[q.toNat]? = some (p, v)
  passed : ∀ q, (s.producer p).passed = some q → q ≤ s.consumerSequence + 2 ^ k
  stored : ∀ q, (s.producer p).stored = some q →
    s.sent[q.toNat]? = some (p, s.events (ringIndex (2 ^ k) q))
  publish : ∀ q, s.producer p = .publish q → q = s.cursor + 1
  calls : s.calls p =
    (s.sent.filter fun e => e.1 = p).map Prod.snd ++ (s.producer p).unclaimed

structure ConsumerOk (s : State T) : Prop where
  sequence : -1 ≤ s.consumerSequence ∧ s.consumerSequence < s.nextSequence
  available : s.available ≤ s.cursor
  next : s.nextSequence ≤ s.cursor + 1
  idle : s.consumer = .idle →
    s.nextSequence ≤ s.available ∨ s.nextSequence = s.consumerSequence + 1
  deliver : ∀ c size, s.consumer = .deliver c size →
    c ≤ size ∧ s.nextSequence + size ≤ s.available + 1
  finish : s.consumer = .finishBatch → s.available < s.nextSequence
  length : (s.delivered.length : Int) = s.nextSequence + s.consumer.ahead
  delivered : s.delivered <+: s.sent.map Prod.snd

structure Inv (k : Nat) (s : State T) : Prop where
  last : s.lastClaimed = s.sent.length - 1
  lastConsumer : s.lastConsumer = -1
  cursor : -1 ≤ s.cursor ∧ s.cursor ≤ s.lastClaimed
  producer : ∀ p, ProducerOk k s p
  pending : ∀ q : Int, s.cursor < q → q ≤ s.lastClaimed → ∃ p, (s.producer p).held = some q
  published : ∀ q : Int, s.delivered.length ≤ q → q ≤ s.cursor → q ≤ s.consumerSequence + 2 ^ k ∧
    (s.sent[q.toNat]?).map Prod.snd = some (s.events (ringIndex (2 ^ k) q))
  consumer : ConsumerOk s

theorem inv_initial [Inhabited T] (k : Nat) : Inv k (initial : State T) where
  last := rfl
  lastConsumer := rfl
  cursor := by simp [initial, kInitialCursorValue]
  producer p := by constructor <;> simp [initial, ProducerPc.held, ProducerPc.passed,
    ProducerPc.stored, ProducerPc.unclaimed]
  pending q h h' := by simp only [initial, kInitialCursorValue] at h h'; omega
  published q h h' := by simp only [initial, kInitialCursorValue, List.length_nil] at h h'; omega
  consumer := by constructor <;> simp [initial, kInitialCursorValue, ConsumerPc.ahead]

variable {k : Nat} {s t : State T}

theorem Inv.held_inj (hi : Inv k s) {p p' : ThreadId} {q : Int}
    (h : (s.producer p).held = some q) (h' : (s.producer p').held = some q) : p = p' := by
  obtain ⟨-, -, v, hv⟩ := (hi.producer p).held q h
  obtain ⟨-, -, v', hv'⟩ := (hi.producer p').held q h'
  simp_all

theorem ProducerPc.held_of_passed {pc : ProducerPc T} {q : Int} (h : pc.passed = some q) :
    pc.held = some q := by
  cases pc <;> simp_all [passed, held]

theorem ProducerPc.passed_of_stored {pc : ProducerPc T} {q : Int} (h : pc.stored = some q) :
    pc.passed = some q := by
  cases pc <;> simp_all [passed, stored]

theorem ConsumerOk.le_delivered (hc : ConsumerOk s) :
    s.consumerSequence < s.delivered.length ∧ (s.delivered.length : Int) ≤ s.cursor + 1 := by
  have hlen := hc.length
  have hseq := hc.sequence
  have hav := hc.available
  have hnext := hc.next
  cases hpc : s.consumer with
  | deliver c size =>
    have hd := hc.deliver c size hpc
    simp only [hpc, ConsumerPc.ahead] at hlen
    omega
  | _ =>
    simp only [hpc, ConsumerPc.ahead] at hlen
    omega

@[simp] theorem State.producer_setProducer (s : State T) (p : ThreadId) (pc : ProducerPc T) :
    (s.setProducer p pc).producer p = pc := by
  simp only [State.setProducer, Function.update_self]

theorem State.producer_setProducer_of_ne (s : State T) {p p' : ThreadId} (pc : ProducerPc T)
    (hne : p' ≠ p) : (s.setProducer p pc).producer p' = s.producer p' := by
  simp only [State.setProducer]
  rw [Function.update_of_ne hne]

/-- A producer that does not move keeps its part as long as the claims after its own are not its
own, the cursor stays short of what it holds and its slot is left alone. -/
theorem ProducerOk.frame {p : ThreadId} (h : ProducerOk k s p)
    (hpc : t.producer p = s.producer p) (hcalls : t.calls p = s.calls p)
    (hsent : ∃ l, t.sent = s.sent ++ l ∧ ∀ e ∈ l, e.1 ≠ p)
    (hlast : s.lastClaimed ≤ t.lastClaimed)
    (hcons : s.consumerSequence ≤ t.consumerSequence)
    (hcursor : ∀ q, (s.producer p).held = some q → t.cursor < q)
    (hpublish : ∀ q, s.producer p = .publish q → t.cursor = s.cursor)
    (hevents : ∀ q, (s.producer p).stored = some q →
      t.events (ringIndex (2 ^ k) q) = s.events (ringIndex (2 ^ k) q)) :
    ProducerOk k t p := by
  obtain ⟨l, hl, hother⟩ := hsent
  constructor
  · intro q hq
    rw [hpc] at hq
    obtain ⟨-, hle, v, hv⟩ := h.held q hq
    refine ⟨hcursor q hq, hle.trans hlast, v, ?_⟩
    rw [hl]
    rw [List.getElem?_append_left (List.getElem?_eq_some_iff.mp hv).1]
    exact hv
  · intro q v hq
    rw [hpc] at hq
    have hv := h.value q v hq
    rw [hl]
    rw [List.getElem?_append_left (List.getElem?_eq_some_iff.mp hv).1]
    exact hv
  · intro q hq
    rw [hpc] at hq
    have hle := h.passed q hq
    omega
  · intro q hq
    rw [hpc] at hq
    have hv := h.stored q hq
    rw [hl, hevents q hq]
    rw [List.getElem?_append_left (List.getElem?_eq_some_iff.mp hv).1]
    exact hv
  · intro q hq
    rw [hpc] at hq
    rw [hpublish q hq]
    exact h.publish q hq
  · have hnil : (l.filter fun e => e.1 = p) = [] := by
      rw [List.filter_eq_nil_iff]
      intro e he
      simpa using hother e he
    rw [hpc, hcalls, hl, List.filter_append, hnil, List.append_nil]
    exact h.calls

theorem Inv.moveProducer (hi : Inv k s) {p : ThreadId} {pc : ProducerPc T}
    (calls : ThreadId → List T) (hcalls : ∀ p', p' ≠ p → calls p' = s.calls p')
    (hheld : pc.held = (s.producer p).held)
    (hp : ProducerOk k { s.setProducer p pc with calls := calls } p) :
    Inv k { s.setProducer p pc with calls := calls } where
  last := hi.last
  lastConsumer := hi.lastConsumer
  cursor := hi.cursor
  producer p' := by
    by_cases hpp : p' = p
    · rw [hpp]
      exact hp
    · have hp' := hi.producer p'
      apply hp'.frame
      · exact s.producer_setProducer_of_ne pc hpp
      · exact hcalls p' hpp
      · exact ⟨[], (List.append_nil _).symm, by simp⟩
      · exact le_rfl
      · exact le_rfl
      · intro q hq
        exact (hp'.held q hq).1
      · intro _ _
        rfl
      · intro _ _
        rfl
  pending q hq hq' := by
    obtain ⟨p', hp'⟩ := hi.pending q hq hq'
    refine ⟨p', ?_⟩
    by_cases hpp : p' = p
    · subst hpp
      rwa [State.producer_setProducer, hheld]
    · rwa [State.producer_setProducer_of_ne s pc hpp]
  published := hi.published
  consumer := by
    obtain ⟨c1, c2, c3, c4, c5, c6, c7, c8⟩ := hi.consumer
    exact ⟨c1, c2, c3, c4, c5, c6, c7, c8⟩

theorem inv_send {longMax : Int} {p : ThreadId} {v : T} (hi : Inv k s)
    (h : step k longMax s (.send p v) = some t) : Inv k t := by
  simp only [step] at h
  split at h <;> simp only [Option.some.injEq, reduceCtorEq] at h
  rename_i hp
  subst h
  have hcalls := (hi.producer p).calls
  apply hi.moveProducer
  · intro p' hne
    exact Function.update_of_ne hne _ _
  · rw [hp]
    rfl
  · constructor <;> simp [ProducerPc.held, ProducerPc.passed, ProducerPc.stored]
    simpa [hp, ProducerPc.unclaimed, State.setProducer] using hcalls

/-- The claim: the sequence after the last one claimed goes to the producer, with its value. -/
theorem inv_claim {longMax : Int} {p : ThreadId} (hi : Inv k s)
    (h : step k longMax s (.claim p) = some t) : Inv k t := by
  simp only [step] at h
  split at h <;> simp only [Option.some.injEq, reduceCtorEq] at h
  rename_i v hp
  subst h
  have hcursor := hi.cursor
  have hlength : (s.lastClaimed + 1).toNat = s.sent.length := by
    have hlast := hi.last
    omega
  have hslot : (s.sent ++ [(p, v)])[(s.lastClaimed + 1).toNat]? = some (p, v) := by
    rw [hlength]
    exact List.getElem?_concat_length
  constructor
  · have hlast := hi.last
    simp only [List.length_append, List.length_singleton]
    omega
  · exact hi.lastConsumer
  · simp only [State.setProducer]
    omega
  · intro p'
    have hp' := hi.producer p'
    by_cases hpp : p' = p
    · subst hpp
      constructor
      · intro q hq
        simp only [State.producer_setProducer, ProducerPc.held, Option.some.injEq] at hq
        subst hq
        exact ⟨by simp only [State.setProducer]; omega, le_rfl, v, hslot⟩
      · intro q w hq
        simp only [State.producer_setProducer, ProducerPc.gate.injEq, reduceCtorEq, or_false] at hq
        obtain ⟨rfl, rfl⟩ := hq
        exact hslot
      · simp [ProducerPc.passed]
      · simp [ProducerPc.stored]
      · simp
      · have hcalls := hp'.calls
        simp only [hp, ProducerPc.unclaimed] at hcalls
        simpa [ProducerPc.unclaimed, State.setProducer] using hcalls
    · apply hp'.frame
      · exact s.producer_setProducer_of_ne _ hpp
      · rfl
      · exact ⟨[(p, v)], rfl, by simpa using Ne.symm hpp⟩
      · simp only
        omega
      · exact le_rfl
      · intro q hq
        exact (hp'.held q hq).1
      · intro _ _
        rfl
      · intro _ _
        rfl
  · intro q hq hq'
    by_cases he : q = s.lastClaimed + 1
    · exact ⟨p, by simp [he, ProducerPc.held]⟩
    · obtain ⟨p', hp'⟩ := hi.pending q hq (by simp only at hq'; omega)
      have hne : p' ≠ p := by
        rintro rfl
        simp [hp, ProducerPc.held] at hp'
      exact ⟨p', by rwa [State.producer_setProducer_of_ne s _ hne]⟩
  · intro q hq hq'
    obtain ⟨hpass, hstored⟩ := hi.published q hq hq'
    refine ⟨hpass, ?_⟩
    obtain ⟨e, he, hev⟩ := Option.map_eq_some_iff.mp hstored
    rw [List.getElem?_append_left (List.getElem?_eq_some_iff.mp he).1, he, Option.map_some, hev]
    rfl
  · obtain ⟨c1, c2, c3, c4, c5, c6, c7, c8⟩ := hi.consumer
    refine ⟨c1, c2, c3, c4, c5, c6, c7, ?_⟩
    rw [List.map_append]
    exact c8.trans (List.prefix_append _ _)

theorem Inv.le_of_room {longMax q : Int} (hi : Inv k s)
    (hroom : hasRoom longMax s.lastConsumer [s.consumerSequence] (wrapPoint q (2 ^ k))) :
    q ≤ s.consumerSequence + 2 ^ k := by
  have hseq := hi.consumer.sequence.1
  have hlast := hi.lastConsumer
  by_cases hw : s.lastConsumer < wrapPoint q (2 ^ k)
  · have hle := le_of_hasRoom hw hroom
    simp only [wrapPoint, Nat.cast_pow, Nat.cast_ofNat] at hle
    omega
  · simp only [wrapPoint, Nat.cast_pow, Nat.cast_ofNat] at hw
    omega

theorem inv_pass {longMax : Int} {p : ThreadId} (hi : Inv k s)
    (h : step k longMax s (.pass p) = some t) : Inv k t := by
  simp only [step] at h
  split at h <;> simp only [Option.ite_none_right_eq_some, Option.some.injEq, reduceCtorEq] at h
  rename_i q v hp
  obtain ⟨hroom, rfl⟩ := h
  have hpass := hi.le_of_room hroom
  obtain ⟨p1, p2, p3, p4, p5, p6⟩ := hi.producer p
  simp only [hp, ProducerPc.held, ProducerPc.unclaimed, Option.some.injEq] at p1 p6
  apply hi.moveProducer s.calls fun _ _ => rfl
  · rw [hp]
    rfl
  · constructor <;> simp only [State.producer_setProducer, ProducerPc.held, ProducerPc.passed,
      ProducerPc.stored, ProducerPc.unclaimed, Option.some.injEq, reduceCtorEq, false_implies,
      implies_true]
    · exact p1
    · intro q' v' hq'
      simp only [ProducerPc.write.injEq, false_or] at hq'
      obtain ⟨rfl, rfl⟩ := hq'
      exact p2 q v (.inl hp)
    · rintro _ rfl
      exact hpass
    · exact p6

/-- The value of a sequence is in its slot. -/
def State.Written (s : State T) (q : Int) : Prop :=
  q ≤ s.cursor ∨ ∃ p, (s.producer p).stored = some q

/-- The slot a producer is about to store to holds nothing that is still to be delivered. -/
theorem Inv.slot_free (hk : k ≤ 64) (hi : Inv k s) {p : ThreadId} {q : Int} {v : T}
    (hp : s.producer p = .write q v) {j : Int} (hj : s.delivered.length ≤ j) (hw : s.Written j) :
    ringIndex (2 ^ k) j ≠ ringIndex (2 ^ k) q := by
  have hheld : (s.producer p).held = some q := by simp [hp, ProducerPc.held]
  have hq := (hi.producer p).held q hheld
  have hpass := (hi.producer p).passed q (by simp [hp, ProducerPc.passed])
  have hlag := hi.consumer.le_delivered
  rcases hw with hcur | ⟨p', hp'⟩
  · exact slot_ne hk (by omega) (hi.published j hj hcur).1 (by omega) hpass (by omega)
  · have hpass' := (hi.producer p').passed j (ProducerPc.passed_of_stored hp')
    have hheld' := ProducerPc.held_of_passed (ProducerPc.passed_of_stored hp')
    refine slot_ne hk (by omega) hpass' (by omega) hpass ?_
    rintro rfl
    obtain rfl := hi.held_inj hheld' hheld
    simp [hp, ProducerPc.stored] at hp'

theorem inv_write {longMax : Int} {p : ThreadId} (hk : k ≤ 64) (hi : Inv k s)
    (h : step k longMax s (.write p) = some t) : Inv k t := by
  simp only [step] at h
  split at h <;> simp only [Option.some.injEq, reduceCtorEq] at h
  rename_i q v hp
  subst h
  have hheld : (s.producer p).held = some q := by simp [hp, ProducerPc.held]
  have hq := (hi.producer p).held q hheld
  have hpass := (hi.producer p).passed q (by simp [hp, ProducerPc.passed])
  have hval := (hi.producer p).value q v (.inr hp)
  have hcalls := (hi.producer p).calls
  simp only [hp, ProducerPc.unclaimed] at hcalls
  constructor
  · exact hi.last
  · exact hi.lastConsumer
  · exact hi.cursor
  · intro p'
    have hp' := hi.producer p'
    by_cases hpp : p' = p
    · subst p'
      constructor <;> simp only [State.producer_setProducer, ProducerPc.held, ProducerPc.passed,
        ProducerPc.stored, ProducerPc.unclaimed, Option.some.injEq, reduceCtorEq, false_implies,
        implies_true, or_self]
      · rintro _ rfl
        exact hq
      · rintro _ rfl
        exact hpass
      · rintro _ rfl
        rw [Function.update_self]
        exact hval
      · exact hcalls
    · apply hp'.frame
      · exact s.producer_setProducer_of_ne _ hpp
      · rfl
      · exact ⟨[], (List.append_nil _).symm, by simp⟩
      · exact le_rfl
      · exact le_rfl
      · intro q' hq'
        exact (hp'.held q' hq').1
      · intro _ _
        rfl
      · intro q' hq'
        have hheld' := ProducerPc.held_of_passed (ProducerPc.passed_of_stored hq')
        have hlt' := (hp'.held q' hheld').1
        have hlag := hi.consumer.le_delivered.2
        have hfree := hi.slot_free hk hp (by omega) (.inr ⟨p', hq'⟩)
        exact Function.update_of_ne hfree _ _
  · intro q' hq' hq''
    obtain ⟨p', hp'⟩ := hi.pending q' hq' hq''
    refine ⟨p', ?_⟩
    by_cases hpp : p' = p
    · rw [hpp, hheld] at hp'
      rw [hpp]
      simpa [ProducerPc.held] using hp'
    · rwa [State.producer_setProducer_of_ne s _ hpp]
  · intro q' hq' hq''
    obtain ⟨hpass', hstored⟩ := hi.published q' hq' hq''
    refine ⟨hpass', ?_⟩
    change (s.sent[q'.toNat]?).map Prod.snd = some (Function.update s.events _ v _)
    rw [Function.update_of_ne (hi.slot_free hk hp hq' (.inl hq''))]
    exact hstored
  · obtain ⟨c1, c2, c3, c4, c5, c6, c7, c8⟩ := hi.consumer
    exact ⟨c1, c2, c3, c4, c5, c6, c7, c8⟩

theorem inv_synchronize {longMax : Int} {p : ThreadId} (hi : Inv k s)
    (h : step k longMax s (.synchronize p) = some t) : Inv k t := by
  simp only [step] at h
  split at h <;> simp only [Option.ite_none_left_eq_some, Option.some.injEq, reduceCtorEq] at h
  rename_i q hp
  obtain ⟨hge, rfl⟩ := h
  obtain ⟨p1, p2, p3, p4, p5, p6⟩ := hi.producer p
  simp only [hp, ProducerPc.held, ProducerPc.passed, ProducerPc.stored, ProducerPc.unclaimed,
    Option.some.injEq] at p1 p3 p4 p6
  apply hi.moveProducer s.calls fun _ _ => rfl
  · rw [hp]
    rfl
  · constructor <;> simp only [State.producer_setProducer, ProducerPc.held, ProducerPc.passed,
      ProducerPc.stored, ProducerPc.unclaimed, Option.some.injEq, reduceCtorEq, false_implies,
      implies_true, or_self, ProducerPc.publish.injEq]
    · exact p1
    · exact p3
    · exact p4
    · rintro _ rfl
      have hlt := (p1 q rfl).1
      change q = s.cursor + 1
      omega
    · exact p6

/-- The publication: the cursor moves to the sequence the producer holds, which nobody else does. -/
theorem inv_publish {longMax : Int} {p : ThreadId} (hi : Inv k s)
    (h : step k longMax s (.publish p) = some t) : Inv k t := by
  simp only [step] at h
  split at h <;> simp only [Option.some.injEq, reduceCtorEq] at h
  rename_i q hp
  subst h
  have hheld : (s.producer p).held = some q := by simp [hp, ProducerPc.held]
  have hq := (hi.producer p).publish q hp
  have hlast := ((hi.producer p).held q hheld).2.1
  have hpass := (hi.producer p).passed q (by simp [hp, ProducerPc.passed])
  have hstored := (hi.producer p).stored q (by simp [hp, ProducerPc.stored])
  have hcalls := (hi.producer p).calls
  simp only [hp, ProducerPc.unclaimed] at hcalls
  constructor
  · exact hi.last
  · exact hi.lastConsumer
  · have hc := hi.cursor
    simp only [State.setProducer]
    omega
  · intro p'
    have hp' := hi.producer p'
    by_cases hpp : p' = p
    · subst p'
      constructor <;> simp only [State.producer_setProducer, ProducerPc.held, ProducerPc.passed,
        ProducerPc.stored, ProducerPc.unclaimed, reduceCtorEq, false_implies, implies_true,
        or_self]
      exact hcalls
    · have hother (q' : Int) (hq' : (s.producer p').held = some q') : q' ≠ q := by
        rintro rfl
        exact hpp (hi.held_inj hq' hheld)
      apply hp'.frame
      · exact s.producer_setProducer_of_ne _ hpp
      · rfl
      · exact ⟨[], (List.append_nil _).symm, by simp⟩
      · exact le_rfl
      · exact le_rfl
      · intro q' hq'
        have hlt := (hp'.held q' hq').1
        have hne := hother q' hq'
        change s.cursor + 1 < q'
        omega
      · intro q' hq'
        have hq'' := hp'.publish q' hq'
        exact absurd (hq''.trans hq.symm) (hother q' (by rw [hq']; rfl))
      · intro _ _
        rfl
  · intro q' hq' hq''
    have hlt : s.cursor + 1 < q' := hq'
    obtain ⟨p', hp'⟩ := hi.pending q' (by omega) hq''
    have hne : p' ≠ p := by
      rintro rfl
      rw [hheld, Option.some.injEq] at hp'
      omega
    exact ⟨p', by rwa [State.producer_setProducer_of_ne s _ hne]⟩
  · intro q' hq' hq''
    by_cases he : q' = q
    · rw [he]
      refine ⟨hpass, ?_⟩
      change (s.sent[q.toNat]?).map Prod.snd = some (s.events (ringIndex (2 ^ k) q))
      rw [hstored, Option.map_some]
    · have hle : q' ≤ s.cursor + 1 := hq''
      exact hi.published q' hq' (by omega)
  · obtain ⟨c1, c2, c3, c4, c5, c6, c7, c8⟩ := hi.consumer
    refine ⟨c1, ?_, ?_, c4, c5, c6, c7, c8⟩
    · exact c2.trans (Int.le_add_one le_rfl)
    · change s.nextSequence ≤ s.cursor + 1 + 1
      omega

/-- The consumer only moves forward, so its steps concern its own part of the invariant. -/
theorem Inv.withConsumer (hi : Inv k s) {consumerSequence nextSequence available : Int}
    {consumer : ConsumerPc} {delivered : List T} (hseq : s.consumerSequence ≤ consumerSequence)
    (hlen : s.delivered.length ≤ delivered.length)
    (hc : ConsumerOk { s with
      consumerSequence := consumerSequence, nextSequence := nextSequence, available := available,
      consumer := consumer, delivered := delivered }) :
    Inv k { s with
      consumerSequence := consumerSequence, nextSequence := nextSequence, available := available,
      consumer := consumer, delivered := delivered } where
  last := hi.last
  lastConsumer := hi.lastConsumer
  cursor := hi.cursor
  producer p := by
    obtain ⟨p1, p2, p3, p4, p5, p6⟩ := hi.producer p
    exact ⟨p1, p2, fun q hq => (p3 q hq).trans (by simpa using hseq), p4, p5, p6⟩
  pending := hi.pending
  published q hq hq' := by
    obtain ⟨hle, hstored⟩ := hi.published q (by simp only at hq; omega) hq'
    exact ⟨hle.trans (by simpa using hseq), hstored⟩
  consumer := hc

theorem hasEvents_idle (hc : ConsumerOk s) (hidle : s.consumer = .idle) :
    ∃ available, s.hasEvents.1 = { s with available := available } ∧ available ≤ s.cursor ∧
      (s.nextSequence ≤ available ∨ s.nextSequence = s.consumerSequence + 1) ∧
      (s.hasEvents.2 ≠ 0 → s.nextSequence + s.hasEvents.2 = available + 1) := by
  have hbatch := hc.idle hidle
  have hseq := hc.sequence
  simp only [State.hasEvents, State.isBatch, dontWaitFor, kNotReadySignal, decide_eq_true_eq]
  by_cases hopen : s.nextSequence ≤ s.available
  · refine ⟨s.available, by rw [if_pos hopen], hc.available, hbatch, ?_⟩
    rw [if_pos hopen]
    simp only
    omega
  · have hnext : s.consumerSequence + 1 = s.nextSequence := by omega
    have hnext' := hc.next
    rw [if_neg hopen, hnext]
    refine ⟨_, rfl, ?_, .inr rfl, ?_⟩ <;> grind

theorem inv_get {longMax : Int} {requested : Option Nat} (hi : Inv k s)
    (h : step k longMax s (.get requested) = some t) : Inv k t := by
  simp only [step] at h
  split at h <;> simp only [Option.some.injEq, reduceCtorEq] at h
  rename_i hidle
  subst h
  obtain ⟨available, heq, hle, hopen, hsize⟩ := hasEvents_idle hi.consumer hidle
  obtain ⟨c1, c2, c3, c4, c5, c6, c7, c8⟩ := hi.consumer
  simp only [hidle, ConsumerPc.ahead] at c7
  simp only [State.beginGet]
  rw [heq]
  split
  · refine hi.withConsumer le_rfl le_rfl ⟨c1, hle, c3, fun _ => hopen, ?_, ?_, ?_, c8⟩ <;>
      simp [hidle, ConsumerPc.ahead, c7]
  · rename_i hne
    refine hi.withConsumer le_rfl le_rfl ⟨c1, hle, c3, ?_, ?_, ?_, ?_, c8⟩
    · simp
    · intro c size hcs
      simp only [ConsumerPc.deliver.injEq] at hcs
      have hs := hsize hne
      simp only
      cases requested <;> grind
    · simp
    · simpa [ConsumerPc.ahead] using c7

/-- Every sequence the consumer may still deliver is published: its slot holds the value sent
under it. -/
theorem Inv.slot_delivered (hi : Inv k s) {c size : Nat} (hpc : s.consumer = .deliver c size)
    (hlt : c < size) : (s.sent[s.delivered.length]?).map Prod.snd =
      some (s.events (ringIndex (2 ^ k) (s.nextSequence + c))) := by
  have hd := hi.consumer.deliver c size hpc
  have hlen := hi.consumer.length
  have hav := hi.consumer.available
  simp only [hpc, ConsumerPc.ahead] at hlen
  have hstored := (hi.published s.delivered.length le_rfl (by omega)).2
  rwa [Int.toNat_natCast, hlen] at hstored

theorem inv_deliver {longMax : Int} (hi : Inv k s)
    (h : step k longMax s .deliver = some t) : Inv k t := by
  simp only [step] at h
  split at h <;> simp only [Option.ite_none_right_eq_some, Option.some.injEq, reduceCtorEq] at h
  rename_i c size hpc
  obtain ⟨hlt, rfl⟩ := h
  have hslot := hi.slot_delivered hpc hlt
  obtain ⟨c1, c2, c3, c4, c5, c6, c7, c8⟩ := hi.consumer
  have hd := c5 c size hpc
  simp only [hpc, ConsumerPc.ahead] at c7
  refine hi.withConsumer le_rfl (by simp) ⟨c1, c2, c3, ?_, ?_, ?_, ?_, ?_⟩
  · simp
  · grind
  · simp
  · simp only [List.length_append, List.length_singleton, ConsumerPc.ahead]
    omega
  · obtain ⟨rest, hrest⟩ := c8
    cases rest with
    | nil =>
      have hnone : s.sent[s.delivered.length]? = none := by
        rw [List.append_nil] at hrest
        rw [List.getElem?_eq_none_iff, hrest, List.length_map]
      simp [hnone] at hslot
    | cons v rest =>
      refine ⟨rest, ?_⟩
      rw [← List.getElem?_map, ← hrest] at hslot
      simp only [List.getElem?_append_right le_rfl, Nat.sub_self, List.getElem?_cons_zero,
        Option.some.injEq] at hslot
      simp only [← hrest, ← hslot, List.append_assoc, List.singleton_append]

theorem inv_commit {longMax : Int} (hi : Inv k s)
    (h : step k longMax s .commit = some t) : Inv k t := by
  simp only [step] at h
  split at h <;> simp only [Option.ite_none_left_eq_some, Option.some.injEq, reduceCtorEq] at h
  rename_i c size hpc
  obtain ⟨hge, rfl⟩ := h
  obtain ⟨c1, c2, c3, c4, c5, c6, c7, c8⟩ := hi.consumer
  have hd := c5 c size hpc
  simp only [hpc, ConsumerPc.ahead] at c7
  refine hi.withConsumer le_rfl le_rfl ⟨?_, c2, ?_, ?_, ?_, ?_, ?_, c8⟩ <;>
    simp only [State.isBatch, decide_eq_true_eq] <;> grind [ConsumerPc.ahead]

theorem inv_finishBatch {longMax : Int} (hi : Inv k s)
    (h : step k longMax s .finishBatch = some t) : Inv k t := by
  simp only [step] at h
  split at h <;> simp only [Option.some.injEq, reduceCtorEq] at h
  rename_i hpc
  subst h
  obtain ⟨c1, c2, c3, c4, c5, c6, c7, c8⟩ := hi.consumer
  simp only [hpc, ConsumerPc.ahead] at c7
  refine hi.withConsumer (by omega) le_rfl ⟨?_, c2, c3, ?_, ?_, ?_, c7, c8⟩ <;>
    simp only <;> grind

theorem inv_step {longMax : Int} (hk : k ≤ 64) (a : Action T) (hi : Inv k s)
    (h : step k longMax s a = some t) : Inv k t := by
  cases a with
  | send p v => exact inv_send hi h
  | claim p => exact inv_claim hi h
  | pass p => exact inv_pass hi h
  | write p => exact inv_write hk hi h
  | synchronize p => exact inv_synchronize hi h
  | publish p => exact inv_publish hi h
  | get requested => exact inv_get hi h
  | deliver => exact inv_deliver hi h
  | commit => exact inv_commit hi h
  | finishBatch => exact inv_finishBatch hi h

theorem inv_reachable [Inhabited T] {longMax : Int} (hk : k ≤ 64)
    (h : (machine (T := T) k longMax).Reachable s) : Inv k s :=
  h.invariant (P := Inv k) (inv_initial k) fun _ a _ hi hs => inv_step hk a hi hs

/-- Delivery: what the consumer has handed on is a prefix of what was claimed, claims follow each
producer's program order (only its current call may be missing), no store hits a slot that holds an
undelivered value, and no slot is read before its store. -/
theorem delivery [Inhabited T] {longMax : Int} (hk : k ≤ 64)
    (h : (machine (T := T) k longMax).Reachable s) :
    s.delivered <+: s.sent.map Prod.snd ∧
    (∀ p, s.calls p =
      (s.sent.filter fun e => e.1 = p).map Prod.snd ++ (s.producer p).unclaimed) ∧
    (∀ p q v, s.producer p = .write q v → ∀ j : Int, s.delivered.length ≤ j → s.Written j →
      ringIndex (2 ^ k) j ≠ ringIndex (2 ^ k) q) ∧
    (∀ c size, s.consumer = .deliver c size → c < size → s.Written (s.nextSequence + c)) := by
  have hi := inv_reachable hk h
  refine ⟨hi.consumer.delivered, fun p => (hi.producer p).calls, ?_, ?_⟩
  · intro p q v hp j hj hw
    exact hi.slot_free hk hp hj hw
  · intro c size hpc hlt
    have hd := hi.consumer.deliver c size hpc
    have hav := hi.consumer.available
    exact .inl (by omega)

/-- Two producers, the second claim published after the first, read in one batch. -/
theorem delivery_two : ∃ s : State Nat, (machine 10 (2 ^ 63 - 1)).Reachable s ∧
    s.delivered = [7, 8] ∧ s.sent = [(0, 7), (1, 8)] ∧ s.delivered <+: s.sent.map Prod.snd := by
  obtain ⟨s, hs, hd, hsent⟩ : ∃ s : State Nat, (machine 10 (2 ^ 63 - 1)).exec initial
      [.send 0 7, .send 1 8, .claim 0, .claim 1, .pass 1, .write 1, .pass 0, .write 0,
        .synchronize 0, .publish 0, .synchronize 1, .publish 1, .get none, .deliver, .deliver] =
      some s ∧ s.delivered = [7, 8] ∧ s.sent = [(0, 7), (1, 8)] := ⟨_, rfl, rfl, rfl⟩
  have hr := Machine.reachable_of_exec hs
  exact ⟨s, hr, hd, hsent, (delivery (by decide) hr).1⟩

end Dumbo.Disruptor.Mpsc
