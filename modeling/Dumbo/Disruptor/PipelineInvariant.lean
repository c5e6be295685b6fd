import Dumbo.Disruptor.Pipeline
import Dumbo.Disruptor.SequencerPublishing
import Mathlib.Logic.Relation

/-!
# The invariant of consumers behind barriers

A consumer's open batch lies behind the cursor and behind the sequences of its dependents. The sequencer
sees the consumers only through the gating sequences, which move forward up to the cursor.
-/

namespace Dumbo.Disruptor

open Transition

/-! ### What a step of a publisher leaves as it is -/

namespace Sequencer

variable {T : Type} {k gates : Nat} {longMax : Int} {s t : State T}

/-- The steps of publishers. -/
def Action.isAdvance : Action T → Bool
  | .advance _ _ => true
  | _ => false

structure Frame (s t : State T) : Prop where
  gating : t.gating = s.gating
  cursor : s.cursor ≤ t.cursor
  written : ∀ j, j ≤ s.cursor → t.written j = s.written j

theorem Frame.setPublisher (s : State T) (p : ThreadId) (pc : Pc) : Frame s (s.setPublisher p pc) :=
  ⟨rfl, Int.le_refl _, fun _ _ => rfl⟩

theorem Inv.frame (h : Inv k gates s) {a : Action T} (ha : a.isAdvance = false)
    (hs : Sequencer.step k longMax gates s a = some t) : Frame s t := by
  cases a with
  | claim p d =>
    simp only [Sequencer.step] at hs
    split at hs
    · rw [Option.ite_none_right_eq_some, Option.some.injEq] at hs
      obtain ⟨_, rfl⟩ := hs
      exact ⟨rfl, Int.le_refl _, fun _ _ => rfl⟩
    · cases hs
  | check p =>
    simp only [Sequencer.step] at hs
    split at hs
    · split at hs
      · cases hs
        exact .setPublisher s p _
      · cases hs
        exact .setPublisher s p _
    · cases hs
  | scan p =>
    simp only [Sequencer.step] at hs
    split at hs
    · split at hs
      · cases hs
        exact .setPublisher s p _
      · split at hs
        · cases hs
          exact .setPublisher s p _
        · cases hs
          exact .setPublisher s p _
    · cases hs
  | write p offset value =>
    simp only [Sequencer.step] at hs
    split at hs
    · rename_i q d hpc
      rw [Option.ite_none_right_eq_some, Option.some.injEq] at hs
      obtain ⟨hoffset, rfl⟩ := hs
      -- the claimed range begins after the cursor
      obtain ⟨_, _, hcursor, _⟩ := h.held_within (p := p) (q := q) (d := d) (by rw [hpc]; rfl)
      refine ⟨rfl, Int.le_refl _, ?_⟩
      intro j hj
      apply Function.update_of_ne
      omega
    · cases hs
  | finish p =>
    simp only [Sequencer.step] at hs
    split at hs
    · rw [Option.ite_none_right_eq_some, Option.some.injEq] at hs
      obtain ⟨_, rfl⟩ := hs
      exact .setPublisher s p _
    · cases hs
  | synchronize p =>
    simp only [Sequencer.step] at hs
    split at hs
    · rw [Option.ite_none_left_eq_some, Option.some.injEq] at hs
      obtain ⟨_, rfl⟩ := hs
      exact .setPublisher s p _
    · cases hs
  | publish p =>
    simp only [Sequencer.step] at hs
    split at hs
    · rw [Option.some.injEq] at hs
      subst hs
      refine ⟨rfl, ?_, fun _ _ => rfl⟩
      show s.cursor ≤ s.cursor + _
      omega
    · cases hs
  | advance gate sequence => cases ha

/-- Every claim fits the ring. -/
theorem claims_fit {a : Action T} (h : ∀ e ∈ s.claims, e.delta ≤ 2 ^ k)
    (hs : Sequencer.step k longMax gates s a = some t) : ∀ e ∈ t.claims, e.delta ≤ 2 ^ k := by
  cases a with
  | claim p d =>
    simp only [Sequencer.step] at hs
    split at hs
    · rw [Option.ite_none_right_eq_some, Option.some.injEq] at hs
      obtain ⟨⟨_, hd, _⟩, rfl⟩ := hs
      intro e he
      rcases List.mem_append.mp he with he | he
      · exact h e he
      · rw [List.mem_singleton.mp he]
        exact hd
    · cases hs
  | check | scan | write | finish | synchronize | publish | advance =>
    simp only [Sequencer.step] at hs
    repeat' split at hs
    all_goals
      first
      | cases hs; exact h
      | cases hs

end Sequencer

namespace Pipeline

variable {T C : Type}

/-! ### Consumers -/

/-- Up to the cursor, and up to the sequence of each dependent. -/
def Released (topology : Topology C) (s : State T C) (c : C) (v : Int) : Prop :=
  v ≤ s.sequencer.cursor ∧ ∀ d ∈ topology.dependents c, v ≤ (s.consumer d).sequence

/-- The consumer's place in the batch. -/
def ConsumerPc.ahead : ConsumerPc → Nat
  | .deliver c _ => c
  | _ => 0

/-- What a consumer's place says about its counters. -/
def Place (topology : Topology C) (s : State T C) (c : C) (x : Consumer T) : ConsumerPc → Prop
  | .idle => x.nextSequence ≤ x.available ∨ x.nextSequence = x.sequence + 1
  | .scan n m _ => x.nextSequence = x.sequence + 1 ∧ n ≤ (topology.dependents c).length ∧
    ∀ i d, i < n → (topology.dependents c)[i]? = some d → m ≤ (s.consumer d).sequence
  | .alerted _ => x.nextSequence = x.sequence + 1
  | .deliver i size => i ≤ size ∧ x.nextSequence + size ≤ x.available + 1
  | .finishBatch => True

structure ConsumerOk (topology : Topology C) (s : State T C) (c : C) (x : Consumer T) : Prop where
  sequence : -1 ≤ x.sequence ∧ x.sequence < x.nextSequence
  available : Released topology s c x.available
  next : Released topology s c (x.nextSequence - 1)
  place : Place topology s c x x.pc
  length : (x.delivered.length : Int) = x.nextSequence + x.pc.ahead
  delivered : ∀ (i : Nat) v, x.delivered[i]? = some v → s.sequencer.written i = some v

structure Inv (k : Nat) (topology : Topology C) (s : State T C) : Prop where
  sequencer : Sequencer.Inv k topology.gatingSequences.length (s.gated topology)
  consumer : ∀ c, ConsumerOk topology s c (s.consumer c)
  fits : ∀ e ∈ s.sequencer.claims, e.delta ≤ 2 ^ k

/-- Behind every consumer there is one of the gating sequences. -/
def Covered (topology : Topology C) : Prop :=
  ∀ c, ∃ g ∈ topology.gatingSequences, Relation.ReflTransGen (fun a b => b ∈ topology.dependents a) g c

variable {k : Nat} {longMax : Int} {topology : Topology C} {s t : State T C} {c : C} {x : Consumer T}

theorem Released.le {v w : Int} (h : Released topology s c w) (hle : v ≤ w) : Released topology s c v := by
  refine ⟨Int.le_trans hle h.1, ?_⟩
  intro d hd
  exact Int.le_trans hle (h.2 d hd)

theorem Released.mono {v : Int} (h : Released topology s c v)
    (hcursor : s.sequencer.cursor ≤ t.sequencer.cursor)
    (hsequence : ∀ d, (s.consumer d).sequence ≤ (t.consumer d).sequence) : Released topology t c v := by
  refine ⟨Int.le_trans h.1 hcursor, ?_⟩
  intro d hd
  exact Int.le_trans (h.2 d hd) (hsequence d)

theorem ConsumerOk.at (h : ConsumerOk topology s c x) {pc : ConsumerPc} (hpc : x.pc = pc) :
    Place topology s c x pc ∧ (x.delivered.length : Int) = x.nextSequence + pc.ahead := by
  subst hpc
  exact ⟨h.place, h.length⟩

theorem ConsumerOk.released (h : ConsumerOk topology s c x) :
    Released topology s c (x.delivered.length - 1) := by
  have hlength := h.length
  cases hpc : x.pc with
  | deliver i size =>
    obtain ⟨⟨hi, hsize⟩, hlength⟩ := h.at hpc
    rw [ConsumerPc.ahead] at hlength
    apply h.available.le
    omega
  | _ =>
    simp only [hpc, ConsumerPc.ahead] at hlength
    apply h.next.le
    omega

/-- The counters of the others only grow, and what is written up to the cursor stays. -/
theorem ConsumerOk.mono (h : ConsumerOk topology s c x)
    (hcursor : s.sequencer.cursor ≤ t.sequencer.cursor)
    (hsequence : ∀ d, (s.consumer d).sequence ≤ (t.consumer d).sequence)
    (hwritten : ∀ j, j ≤ s.sequencer.cursor → t.sequencer.written j = s.sequencer.written j) :
    ConsumerOk topology t c x where
  sequence := h.sequence
  available := h.available.mono hcursor hsequence
  next := h.next.mono hcursor hsequence
  place := by
    have hplace := h.place
    cases hpc : x.pc with
    | scan n m r =>
      rw [hpc] at hplace
      obtain ⟨hnext, hn, hm⟩ := hplace
      refine ⟨hnext, hn, ?_⟩
      intro i d hi hd
      exact Int.le_trans (hm i d hi hd) (hsequence d)
    | _ =>
      rw [hpc] at hplace
      exact hplace
  length := h.length
  delivered i v hv := by
    obtain ⟨hlt, _⟩ := List.getElem?_eq_some_iff.mp hv
    have hle := h.released.1
    rw [hwritten i (by omega)]
    exact h.delivered i v hv

theorem ConsumerOk.initial [Inhabited T] : ConsumerOk topology ⟨Sequencer.initial, fun _ => .initial⟩ c
    (.initial : Consumer T) := by
  constructor <;> simp [Consumer.initial, Released, Sequencer.initial, kInitialCursorValue, ConsumerPc.ahead, Place]

theorem Inv.initial [Inhabited T] : Inv k topology (⟨Sequencer.initial, fun _ => .initial⟩ : State T C) := by
  refine ⟨?_, fun c => .initial, ?_⟩
  · have hgated : State.gated topology ⟨Sequencer.initial, fun _ => .initial⟩ =
        (Sequencer.initial : Sequencer.State T) := by
      simp only [State.gated, Sequencer.initial, Consumer.initial, Sequencer.State.mk.injEq, true_and, and_true]
      funext i
      cases topology.gatingSequences[i]? <;> rfl
    rw [hgated]
    exact .initial
  · intro e he
    exact absurd he List.not_mem_nil

/-! ### Gating -/

theorem Inv.sequence_le (h : Inv k topology s) {g : C}
    (hpath : Relation.ReflTransGen (fun a b => b ∈ topology.dependents a) g c) :
    (s.consumer g).sequence ≤ (s.consumer c).sequence := by
  induction hpath with
  | refl => exact Int.le_refl _
  | @tail b c _ hc ih =>
    have hnext := (h.consumer b).next.2 c hc
    have hsequence := (h.consumer b).sequence.2
    omega

/-- No slot is overwritten that a consumer has not committed. -/
theorem Inv.intact (h : Inv k topology s) (hcovered : Covered topology) {j : Int} {v : T}
    (hj : s.sequencer.written j = some v) (hlt : (s.consumer c).sequence < j) :
    s.sequencer.events (ringIndex (2 ^ k) j) = v := by
  obtain ⟨g, hg, hpath⟩ := hcovered c
  obtain ⟨i, hi, hgi⟩ := List.getElem_of_mem hg
  have hle := h.sequence_le hpath
  apply h.sequencer.kept j v hj i hi
  simp only [State.gated, List.getElem?_eq_getElem hi, hgi, Option.elim_some]
  omega

theorem Inv.regate (h : Inv k topology s) (hgrow : ∀ d, (s.consumer d).sequence ≤ (t.consumer d).sequence)
    (hle : ∀ d, (t.consumer d).sequence ≤ s.sequencer.cursor) (heq : t.sequencer = s.sequencer) :
    Sequencer.Inv k topology.gatingSequences.length (t.gated topology) := by
  have hgate : ∀ i < topology.gatingSequences.length,
      (s.gated topology).gating i ≤ (t.gated topology).gating i ∧
        (t.gated topology).gating i ≤ s.sequencer.cursor := by
    intro i hi
    simp only [State.gated, List.getElem?_eq_getElem hi, Option.elim_some]
    exact ⟨hgrow _, hle _⟩
  have hview : t.gated topology =
      { s.gated topology with gating := (t.gated topology).gating } := by
    simp only [State.gated, heq]
  rw [hview]
  exact h.sequencer.regate hgate

/-! ### The steps of a consumer -/

theorem Inv.setConsumer [DecidableEq C] (h : Inv k topology s) {y : Consumer T}
    (hy : ConsumerOk topology s c y) (hgrow : (s.consumer c).sequence ≤ y.sequence) :
    Inv k topology (s.setConsumer c y) := by
  have hsequence : ∀ d, (s.consumer d).sequence ≤ ((s.setConsumer c y).consumer d).sequence := by
    intro d
    by_cases hd : d = c
    · subst hd
      simpa only [State.setConsumer, Function.update_self] using hgrow
    · simp only [State.setConsumer, Function.update_of_ne hd, Int.le_refl]
  have hok : ∀ d, ConsumerOk topology s d ((s.setConsumer c y).consumer d) := by
    intro d
    by_cases hd : d = c
    · subst hd
      simpa only [State.setConsumer, Function.update_self] using hy
    · simpa only [State.setConsumer, Function.update_of_ne hd] using h.consumer d
  refine ⟨h.regate hsequence ?_ rfl, ?_, h.fits⟩
  · intro d
    have hnext := (hok d).next.1
    have hlt := (hok d).sequence.2
    omega
  · intro d
    exact (hok d).mono (Int.le_refl _) hsequence fun _ _ => rfl

theorem ConsumerOk.toIdle (h : ConsumerOk topology s c x) (hahead : x.pc.ahead = 0) {v : Int}
    (hv : Released topology s c v) (hidle : x.nextSequence ≤ v ∨ x.nextSequence = x.sequence + 1) :
    ConsumerOk topology s c { x with available := v, pc := .idle } where
  sequence := h.sequence
  available := hv
  next := h.next
  place := hidle
  length := by
    have hlength := h.length
    rwa [hahead] at hlength
  delivered := h.delivered

theorem ConsumerOk.toDeliver (h : ConsumerOk topology s c x) (hahead : x.pc.ahead = 0) {v : Int}
    (hv : Released topology s c v) {n : Nat} (hn : x.nextSequence + n ≤ v + 1) :
    ConsumerOk topology s c { x with available := v, pc := .deliver 0 n } where
  sequence := h.sequence
  available := hv
  next := h.next
  place := ⟨Nat.zero_le _, hn⟩
  length := by
    have hlength := h.length
    rwa [hahead] at hlength
  delivered := h.delivered

@[simp] theorem Consumer.hasEvents_sequence (x : Consumer T) (size : Nat) (requested : Option Nat) :
    (x.hasEvents size requested).sequence = x.sequence := by
  rw [Consumer.hasEvents.eq_def]
  split <;> rfl

@[simp] theorem Consumer.waited_sequence (x : Consumer T) (v : Int) (requested : Option Nat) :
    (x.waited v requested).sequence = x.sequence := Consumer.hasEvents_sequence _ _ _

theorem ConsumerOk.hasEvents (h : ConsumerOk topology s c x) (hahead : x.pc.ahead = 0) {v : Int}
    (hv : Released topology s c v) {size : Nat} (hsize : size ≠ 0 → x.nextSequence + size ≤ v + 1)
    (hidle : size = 0 → x.nextSequence = x.sequence + 1) (requested : Option Nat) :
    ConsumerOk topology s c ({ x with available := v }.hasEvents size requested) := by
  simp only [Consumer.hasEvents]
  split
  · rename_i hzero
    exact h.toIdle hahead hv (.inr (hidle hzero))
  · rename_i hpos
    cases requested with
    | none => exact h.toDeliver hahead hv (hsize hpos)
    | some n =>
      apply h.toDeliver hahead hv
      have hmin : min size n ≤ size := Nat.min_le_left size n
      have hle := hsize hpos
      show x.nextSequence + (min size n : Nat) ≤ v + 1
      omega

theorem ConsumerOk.toScan (h : ConsumerOk topology s c x) (hahead : x.pc.ahead = 0)
    (hnext : x.nextSequence = x.sequence + 1) {n : Nat} {m : Int}
    (hn : n ≤ (topology.dependents c).length)
    (hm : ∀ i d, i < n → (topology.dependents c)[i]? = some d → m ≤ (s.consumer d).sequence)
    (requested : Option Nat) : ConsumerOk topology s c { x with pc := .scan n m requested } := by
  have hlength := h.length
  rw [hahead] at hlength
  exact { h with place := ⟨hnext, hn, hm⟩, length := hlength }

theorem ConsumerOk.rescan (h : ConsumerOk topology s c x) (hahead : x.pc.ahead = 0)
    (hnext : x.nextSequence = x.sequence + 1) (m : Int) (requested : Option Nat) :
    ConsumerOk topology s c { x with pc := .scan 0 m requested } := by
  apply h.toScan hahead hnext (Nat.zero_le _)
  intro i d hi
  exact absurd hi (Nat.not_lt_zero i)

theorem ConsumerOk.waited (h : ConsumerOk topology s c x) (hahead : x.pc.ahead = 0)
    (hnext : x.nextSequence = x.sequence + 1) {v : Int} (hv : Released topology s c v)
    (requested : Option Nat) : ConsumerOk topology s c (x.waited v requested) := by
  apply h.hasEvents hahead hv
  · intro hpos
    split at hpos
    · rename_i hle
      rw [if_pos hle]
      omega
    · exact absurd rfl hpos
  · intro _
    exact hnext

theorem Inv.released_signal (h : Inv k topology s) {v : Int} (hv : v ≤ -1) : Released topology s c v := by
  constructor
  · have hnext := (h.consumer c).next.1
    have hsequence := (h.consumer c).sequence
    omega
  · intro d _
    exact Int.le_trans hv (h.consumer d).sequence.1

theorem Inv.get [DecidableEq C] (h : Inv k topology s) {requested : Option Nat}
    (hpc : (s.consumer c).pc = .idle) :
    Inv k topology (s.setConsumer c ((s.consumer c).get longMax requested)) := by
  have hc := h.consumer c
  have hahead : (s.consumer c).pc.ahead = 0 := by rw [hpc]; rfl
  simp only [Consumer.get]
  split
  · rename_i hbatch
    rw [Consumer.isBatch, decide_eq_true_eq] at hbatch
    apply h.setConsumer
    · apply hc.hasEvents hahead hc.available
      · intro _
        omega
      · intro hzero
        omega
    · rw [Consumer.hasEvents_sequence]
  · rename_i hbatch
    rw [Consumer.isBatch, decide_eq_true_eq] at hbatch
    have hnext : (s.consumer c).nextSequence = (s.consumer c).sequence + 1 :=
      (hc.at hpc).1.resolve_left hbatch
    apply h.setConsumer
    · rw [← hnext]
      exact hc.rescan hahead hnext longMax requested
    · exact Int.le_refl _

theorem ConsumerOk.test (h : ConsumerOk topology s c x) (hahead : x.pc.ahead = 0)
    (hnext : x.nextSequence = x.sequence + 1) {v : Int} (hv : Released topology s c v)
    (hsignal : Released topology s c kNotReadySignal) (strategy : WaitStrategy) (requested : Option Nat) :
    ConsumerOk topology s c (x.test strategy v requested) := by
  have hlength := h.length
  rw [hahead] at hlength
  simp only [Consumer.test]
  split
  · cases strategy with
    | dontWait => exact h.waited hahead hnext hsignal requested
    | spinning =>
      exact { h with place := hnext, length := hlength }
  · exact h.waited hahead hnext hv requested


@[simp] theorem Consumer.test_sequence (strategy : WaitStrategy) (x : Consumer T) (v : Int)
    (requested : Option Nat) : (x.test strategy v requested).sequence = x.sequence := by
  simp only [Consumer.test]
  split
  · cases strategy with
    | spinning => rfl
    | dontWait => exact x.waited_sequence _ _
  · exact x.waited_sequence _ _

theorem Inv.scan [DecidableEq C] (h : Inv k topology s) {n : Nat} {m : Int} {requested : Option Nat}
    (hpc : (s.consumer c).pc = .scan n m requested) :
    Inv k topology (s.setConsumer c (s.scan topology c n m requested)) := by
  have hc := h.consumer c
  have hahead : (s.consumer c).pc.ahead = 0 := by rw [hpc]; rfl
  obtain ⟨⟨hnext, hn, hm⟩, _⟩ := hc.at hpc
  have hsignal : Released topology s c kNotReadySignal := h.released_signal (by decide)
  have hcursor : ∀ d, (s.consumer d).sequence ≤ s.sequencer.cursor := by
    intro d
    have hd := (h.consumer d).next.1
    have hlt := (h.consumer d).sequence.2
    omega
  simp only [State.scan]
  split
  · rename_i hnone
    have hv : Released topology s c s.sequencer.cursor := by
      refine ⟨Int.le_refl _, ?_⟩
      rw [hnone]
      intro d hd
      exact absurd hd List.not_mem_nil
    apply h.setConsumer (hc.test hahead hnext hv hsignal _ _)
    rw [Consumer.test_sequence]
  · rename_i hne
    split
    · rename_i d hd
      apply h.setConsumer
      · apply hc.toScan hahead hnext
        · exact (List.getElem?_eq_some_iff.mp hd).1
        · intro i e hi he
          rcases Nat.lt_succ_iff_lt_or_eq.mp hi with hi | rfl
          · have hle := hm i e hi he
            split <;> omega
          · obtain rfl : d = e := Option.some.inj (hd.symm.trans he)
            split <;> omega
      · exact Int.le_refl _
    · rename_i hnone
      -- every dependent has been read
      have hv : Released topology s c m := by
        have hall : ∀ d ∈ topology.dependents c, m ≤ (s.consumer d).sequence := by
          intro d hd
          obtain ⟨i, hi, rfl⟩ := List.getElem_of_mem hd
          have hlen := List.getElem?_eq_none_iff.mp hnone
          exact hm i _ (by omega) (List.getElem?_eq_getElem hi)
        refine ⟨?_, hall⟩
        obtain ⟨d, hd⟩ := List.exists_mem_of_ne_nil _ hne
        exact Int.le_trans (hall d hd) (hcursor d)
      apply h.setConsumer (hc.test hahead hnext hv hsignal _ _)
      rw [Consumer.test_sequence]

theorem Inv.checkAlerted [DecidableEq C] (h : Inv k topology s) {requested : Option Nat}
    (hpc : (s.consumer c).pc = .alerted requested) :
    Inv k topology (s.setConsumer c (if (s.consumer c).alerted
      then (s.consumer c).waited kAlertedSignal requested
      else { s.consumer c with pc := .scan 0 longMax requested })) := by
  have hc := h.consumer c
  have hahead : (s.consumer c).pc.ahead = 0 := by rw [hpc]; rfl
  have hnext := (hc.at hpc).1
  split
  · apply h.setConsumer (hc.waited hahead hnext (h.released_signal (by decide)) requested)
    rw [Consumer.waited_sequence]
  · apply h.setConsumer (hc.rescan hahead hnext longMax requested)
    exact Int.le_refl _

theorem Inv.deliver [DecidableEq C] (h : Inv k topology s) (hcovered : Covered topology) {i size : Nat}
    (hpc : (s.consumer c).pc = .deliver i size) (hi : i < size) :
    Inv k topology (s.setConsumer c { s.consumer c with
      delivered := (s.consumer c).delivered ++
        [s.sequencer.events (ringIndex (2 ^ k) ((s.consumer c).nextSequence + i))]
      pc := .deliver (i + 1) size }) := by
  have hc := h.consumer c
  obtain ⟨⟨_, hsize⟩, hlength⟩ := hc.at hpc
  have hsequence := hc.sequence
  rw [ConsumerPc.ahead] at hlength
  -- the event lies in the batch, so it is published and its slot has not been reused
  obtain ⟨v, hv⟩ : ∃ v, s.sequencer.written ((s.consumer c).nextSequence + i) = some v := by
    apply Option.isSome_iff_exists.mp
    apply h.sequencer.visible
    · omega
    · apply Int.le_trans _ hc.available.1
      omega
  have hevent := h.intact hcovered hv (c := c) (by omega)
  apply h.setConsumer
  · refine { hc with place := ⟨hi, hsize⟩, length := ?_, delivered := ?_ }
    · rw [List.length_append, List.length_singleton, ConsumerPc.ahead]
      push_cast
      omega
    · intro j w hw
      rcases Nat.lt_or_ge j (s.consumer c).delivered.length with hj | hj
      · rw [List.getElem?_append_left hj] at hw
        exact hc.delivered j w hw
      · rw [List.getElem?_append_right hj, List.getElem?_singleton] at hw
        obtain ⟨hj', rfl⟩ := Option.ite_none_right_eq_some.mp hw |>.imp_right Option.some.inj
        rw [show (j : Int) = (s.consumer c).nextSequence + i by omega, hevent]
        exact hv
  · exact Int.le_refl _

theorem Inv.commit [DecidableEq C] (h : Inv k topology s) {i size : Nat}
    (hpc : (s.consumer c).pc = .deliver i size) (hi : ¬ i < size) :
    Inv k topology (s.setConsumer c ((s.consumer c).commit size)) := by
  have hc := h.consumer c
  obtain ⟨⟨hle, hsize⟩, hlength⟩ := hc.at hpc
  have hsequence := hc.sequence
  rw [ConsumerPc.ahead] at hlength
  apply h.setConsumer
  · refine { hc with sequence := ?_, next := ?_, place := ?_, length := ?_ }
    · simp only [Consumer.commit]
      omega
    · apply hc.available.le
      simp only [Consumer.commit]
      omega
    · simp only [Consumer.commit, Consumer.isBatch, decide_eq_true_eq]
      split
      · rename_i hbatch
        exact .inl hbatch
      · trivial
    · simp only [Consumer.commit]
      split <;> simp only [ConsumerPc.ahead] <;> omega
  · exact Int.le_refl _

theorem Inv.finishBatch [DecidableEq C] (h : Inv k topology s) (hpc : (s.consumer c).pc = .finishBatch) :
    Inv k topology (s.setConsumer c { s.consumer c with
      sequence := (s.consumer c).nextSequence - 1, pc := .idle }) := by
  have hc := h.consumer c
  have hsequence := hc.sequence
  apply h.setConsumer
  · refine { hc with sequence := ?_, place := .inr ?_, length := (hc.at hpc).2 }
    · simp only
      omega
    · simp only
      omega
  · simp only
    omega

theorem Inv.publisher (hk : k ≤ 63) (h : Inv k topology s) {a : Sequencer.Action T}
    (ha : a.isAdvance = false) {q : Sequencer.State T}
    (hs : Sequencer.step k longMax topology.gatingSequences.length (s.gated topology) a = some q) :
    Inv k topology { s with sequencer := q } := by
  have hframe := h.sequencer.frame ha hs
  have hview : State.gated topology { s with sequencer := q } = q := by
    have hgating : (State.gated topology { s with sequencer := q }).gating = q.gating :=
      hframe.gating.symm
    simp only [State.gated] at hgating ⊢
    rw [hgating]
  refine ⟨?_, ?_, Sequencer.claims_fit (s := s.gated topology) h.fits hs⟩
  · rw [hview]
    exact h.sequencer.step hk hs
  · intro c
    exact (h.consumer c).mono hframe.cursor (fun _ => Int.le_refl _) hframe.written

theorem Inv.step [DecidableEq C] (hk : k ≤ 63) (hcovered : Covered topology) {a : Action T C}
    (h : Inv k topology s) (hs : Pipeline.step k longMax topology s a = some t) : Inv k topology t := by
  cases a with
  | publisher a =>
    cases a with
    | advance gate sequence => cases hs
    | _ =>
      obtain ⟨q, hq, rfl⟩ := Option.map_eq_some_iff.mp hs
      exact h.publisher hk rfl hq
  | get c requested =>
    simp only [Pipeline.step] at hs
    split at hs
    · rename_i hpc
      cases hs
      exact h.get hpc
    · cases hs
  | scan c =>
    simp only [Pipeline.step] at hs
    split at hs
    · rename_i n m requested hpc
      cases hs
      exact h.scan hpc
    · cases hs
  | checkAlerted c =>
    simp only [Pipeline.step] at hs
    split at hs
    · rename_i requested hpc
      cases hs
      exact h.checkAlerted hpc
    · cases hs
  | deliver c =>
    simp only [Pipeline.step] at hs
    split at hs
    · rename_i i size hpc
      obtain ⟨hi, rfl⟩ := Option.ite_none_right_eq_some.mp hs |>.imp_right Option.some.inj
      exact h.deliver hcovered hpc hi
    · cases hs
  | commit c =>
    simp only [Pipeline.step] at hs
    split at hs
    · rename_i i size hpc
      obtain ⟨hi, rfl⟩ := Option.ite_none_left_eq_some.mp hs |>.imp_right Option.some.inj
      exact h.commit hpc hi
    · cases hs
  | finishBatch c =>
    simp only [Pipeline.step] at hs
    split at hs
    · rename_i hpc
      cases hs
      exact h.finishBatch hpc
    · cases hs
  | setAlerted c alert =>
    simp only [Pipeline.step] at hs
    cases hs
    apply h.setConsumer
    · exact { h.consumer c with }
    · exact Int.le_refl _

end Pipeline

end Dumbo.Disruptor
