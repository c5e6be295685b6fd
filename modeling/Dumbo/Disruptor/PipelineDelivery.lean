import Dumbo.Disruptor.PipelineInvariant
import Dumbo.Disruptor.ClaimCapacity

/-!
# Delivery behind barriers

Every consumer is handed the published values in their order, behind the consumers it depends on, and no
publisher overwrites what one of them has still to read. With a `long` of 64 bits they wait for each other only
when there is nothing left to do; with one of 32 bits `LONG_MAX` is the end of a consumer with dependents.
-/

namespace Dumbo.Disruptor.Pipeline

open Transition
open Sequencer (int64Max minusSize ThreadId)

variable {T C : Type} {k : Nat} {longMax : Int} {topology : Topology C} {s t : State T C} {c : C}

/-! ### Order -/

/-- What holds in every state of a ring of `2 ^ k` slots with its consumers. -/
structure Delivery (k : Nat) (topology : Topology C) (s : State T C) : Prop where
  /-- the published values in the order of their sequences, none left out and none twice -/
  order : ∀ c, ((s.consumer c).delivered.length : Int) ≤ s.sequencer.cursor + 1 ∧
    ∀ (i : Nat) v, (s.consumer c).delivered[i]? = some v → s.sequencer.written i = some v
  /-- only what each dependent has committed -/
  behind : ∀ c, ∀ d ∈ topology.dependents c,
    ((s.consumer c).delivered.length : Int) ≤ (s.consumer d).sequence + 1 ∧
      (s.consumer c).delivered <+: (s.consumer d).delivered
  /-- a value stays in its slot until every consumer has been handed it -/
  intact : ∀ c j v, s.sequencer.written j = some v → ((s.consumer c).delivered.length : Int) ≤ j →
    s.sequencer.events (ringIndex (2 ^ k) j) = v

theorem ConsumerOk.le_delivered {x : Consumer T} (h : ConsumerOk topology s c x) :
    x.sequence + 1 ≤ x.delivered.length := by
  have hsequence := h.sequence
  have hlength := h.length
  omega

theorem Inv.prefix (h : Inv k topology s) {d : C}
    (hle : ((s.consumer c).delivered.length : Int) ≤ (s.consumer d).sequence + 1) :
    (s.consumer c).delivered <+: (s.consumer d).delivered := by
  have hd := (h.consumer d).le_delivered
  rw [List.prefix_iff_getElem]
  refine ⟨by omega, ?_⟩
  intro i hi
  have hvalue := (h.consumer c).delivered i _ (List.getElem?_eq_getElem hi)
  have hvalue' := (h.consumer d).delivered i _ (List.getElem?_eq_getElem (by omega))
  exact Option.some.inj (hvalue.symm.trans hvalue')

theorem Inv.of_reachable [Inhabited T] [DecidableEq C] (hk : k ≤ 63) (hcovered : Covered topology)
    (h : (machine (T := T) k longMax topology).Reachable s) : Inv k topology s :=
  h.invariant (P := fun s => Inv k topology s) Inv.initial fun _ _ _ hi hs => hi.step hk hcovered hs

theorem pipeline_delivery [Inhabited T] [DecidableEq C] (hk : k ≤ 63) (hcovered : Covered topology)
    (h : (machine (T := T) k longMax topology).Reachable s) : Delivery k topology s := by
  have hinv := Inv.of_reachable hk hcovered h
  refine ⟨fun c => ?_, fun c d hd => ?_, fun c j v hj hle => ?_⟩
  · refine ⟨?_, (hinv.consumer c).delivered⟩
    have hreleased := (hinv.consumer c).released.1
    omega
  · have hreleased := (hinv.consumer c).released.2 d hd
    have hle : ((s.consumer c).delivered.length : Int) ≤ (s.consumer d).sequence + 1 := by omega
    exact ⟨hle, hinv.prefix hle⟩
  · have hdelivered := (hinv.consumer c).le_delivered
    apply hinv.intact (c := c) hcovered hj
    omega

/-- A ring of two slots and two consumers, the second behind the first and gating the publishers. -/
def twoStages : Topology Bool := ⟨fun c => if c then [false] else [], [true], fun _ => .dontWait⟩

theorem twoStages_covered : Covered twoStages := by
  intro c
  refine ⟨true, List.mem_cons_self, ?_⟩
  cases c with
  | true => exact .refl
  | false => exact .single List.mem_cons_self

/-- The third value waits until the second consumer has committed. -/
theorem pipeline_delivery_three : ∃ s : State Nat Bool,
    (s.consumer true).delivered = [7, 8] ∧ s.sequencer.events 0 = 9 ∧ Delivery 1 twoStages s := by
  obtain ⟨s, hs, hd, he⟩ : ∃ s : State Nat Bool,
      (machine 1 int64Max twoStages).exec (machine 1 int64Max twoStages).start
      [.publisher (.claim 0 2), .publisher (.check 0), .publisher (.write 0 1 7), .publisher (.write 0 0 8),
        .publisher (.finish 0), .publisher (.synchronize 0), .publisher (.publish 0),
        .publisher (.claim 1 1), .publisher (.check 1),
        .get false none, .scan false, .deliver false, .deliver false, .commit false, .finishBatch false,
        .get true none, .scan true, .scan true, .deliver true, .deliver true, .commit true, .finishBatch true,
        .publisher (.scan 1), .publisher (.scan 1), .publisher (.write 1 0 9)] = some s ∧
      (s.consumer true).delivered = [7, 8] ∧ s.sequencer.events 0 = 9 := ⟨_, rfl, rfl, rfl⟩
  exact ⟨s, hd, he, pipeline_delivery (by decide) twoStages_covered (Machine.reachable_of_exec hs)⟩

/-! ### Progress -/

/-- What the loop in `WaitFor` compares with the sequence it waits for. -/
def State.awaited (longMax : Int) (topology : Topology C) (s : State T C) (c : C) : Int :=
  match topology.dependents c with
  | [] => s.sequencer.cursor
  | dependents => getMinimumSequence longMax (dependents.map fun d => (s.consumer d).sequence)

/-- The consumer is in `WaitFor`, or has no batch to take from before it, and its test fails. -/
def Starved (longMax : Int) (topology : Topology C) (s : State T C) (c : C) : Prop :=
  (match (s.consumer c).pc with
    | .idle => (s.consumer c).isBatch = false
    | .scan _ _ _ | .alerted _ => True
    | .deliver _ _ | .finishBatch => False) ∧
  s.awaited longMax topology c < (s.consumer c).sequence + 1

/-- The publisher has nothing to publish, or is in a wait loop whose test fails. -/
def Stalled (k : Nat) (longMax : Int) (topology : Topology C) (s : State T C) (p : ThreadId) : Prop :=
  match s.sequencer.publisher p with
  | .idle => True
  | .check q _ | .scan q _ _ _ =>
    hasRoom longMax s.sequencer.lastConsumer
      (topology.gatingSequences.map fun g => (s.consumer g).sequence) (minusSize q (2 ^ k)) = false
  | .synchronize q d => s.sequencer.cursor < minusSize q d
  | .write _ _ | .publish _ _ => False

/-- A minimum is below a bound that all its sequences reach only for lack of `LONG_MAX`. -/
theorem le_getMinimumSequence {v : Int} {sequences : List Int} (hlong : v ≤ longMax)
    (h : ∀ g ∈ sequences, v ≤ g) : v ≤ getMinimumSequence longMax sequences := by
  cases hmin : sequences.min? with
  | none =>
    rw [List.min?_eq_none_iff] at hmin
    rw [hmin]
    exact hlong
  | some slowest =>
    rw [getMinimumSequence_eq hmin]
    exact le_min hlong (h slowest (List.min?_mem hmin))

theorem Inv.cursor_le (h : Inv k topology s) : s.sequencer.cursor ≤ int64Max := by
  obtain ⟨pending, hpending⟩ := h.sequencer.pending
  exact Int.le_trans hpending.chain.le h.sequencer.range

/-- Starved consumers have committed everything, along the order in which they depend on each other. -/
theorem Inv.starved (h : Inv k topology s) (hlong : int64Max ≤ longMax)
    (hacyclic : WellFounded fun a b => a ∈ topology.dependents b)
    (hstarved : ∀ c, Starved longMax topology s c) :
    (s.consumer c).sequence = s.sequencer.cursor := by
  induction c using hacyclic.induction with
  | _ c ih =>
    have hlt := (hstarved c).2
    have hle : (s.consumer c).sequence ≤ s.sequencer.cursor := by
      have hnext := (h.consumer c).next.1
      have hsequence := (h.consumer c).sequence.2
      omega
    have hawaited : s.sequencer.cursor ≤ s.awaited longMax topology c := by
      simp only [State.awaited]
      split
      · exact Int.le_refl _
      · apply le_getMinimumSequence (Int.le_trans h.cursor_le hlong)
        intro g hg
        obtain ⟨d, hd, rfl⟩ := List.mem_map.mp hg
        exact Int.le_of_eq (ih d hd).symm
    omega

/-- The first pending claim finds room and its turn once the consumers have caught up. -/
theorem Inv.first_pending (hk : k ≤ 63) (h : Inv k topology s) (hlong : int64Max ≤ longMax)
    (hcaught : ∀ c, (s.consumer c).sequence = s.sequencer.cursor)
    (hstalled : ∀ p, Stalled k longMax topology s p) (p : ThreadId) :
    s.sequencer.publisher p = .idle := by
  obtain ⟨pending, hpending⟩ := h.sequencer.pending
  cases pending with
  | nil =>
    have hheld := hpending.held p
    cases hpc : s.sequencer.publisher p with
    | idle => rfl
    | _ =>
      exfalso
      have hmem := (hheld _ _).mp (by simp only [State.gated, hpc]; rfl)
      exact absurd hmem List.not_mem_nil
  | cons e rest =>
    exfalso
    obtain ⟨p', q, d⟩ := e
    obtain ⟨hd, hq, _⟩ := hpending.chain
    simp only [State.gated] at hd hq
    have hp' : ((s.gated topology).publisher p').held = some (q, d) :=
      (hpending.held p' q d).mpr List.mem_cons_self
    obtain ⟨hwrap, hturn⟩ := h.sequencer.minusSize_held hk hp'
    have hfits : d ≤ 2 ^ k := by
      apply h.fits ⟨p', q, d⟩
      show ⟨p', q, d⟩ ∈ (s.gated topology).claims
      rw [hpending.claims]
      exact List.mem_append_right _ List.mem_cons_self
    have hfits' : (d : Int) ≤ 2 ^ k := by exact_mod_cast hfits
    have hroom : hasRoom longMax s.sequencer.lastConsumer
        (topology.gatingSequences.map fun g => (s.consumer g).sequence) (minusSize q (2 ^ k)) = true := by
      have hle : s.sequencer.cursor ≤ getMinimumSequence longMax
          (topology.gatingSequences.map fun g => (s.consumer g).sequence) := by
        apply le_getMinimumSequence (Int.le_trans h.cursor_le hlong)
        intro g hg
        obtain ⟨c, _, rfl⟩ := List.mem_map.mp hg
        exact Int.le_of_eq (hcaught c).symm
      simp only [hasRoom, Bool.or_eq_true, Bool.not_eq_eq_eq_not, Bool.not_true, decide_eq_false_iff_not,
        hwrap]
      right
      omega
    have hstall := hstalled p'
    simp only [State.gated] at hp'
    simp only [Stalled] at hstall
    cases hpc : s.sequencer.publisher p' with
    | idle =>
      rw [hpc] at hp'
      cases hp'
    | check q' d' | scan q' d' n m =>
      rw [hpc] at hp' hstall
      cases hp'
      cases hroom.symm.trans hstall
    | synchronize q' d' =>
      rw [hpc] at hp' hstall
      cases hp'
      simp only [hturn] at hstall
      omega
    | write q' d' | publish q' d' =>
      rw [hpc] at hstall
      exact hstall

/-- Where nobody can go on, every claim is published and every consumer has been handed all of it. -/
theorem pipeline_progress [Inhabited T] [DecidableEq C] (hk : k ≤ 63) (hcovered : Covered topology)
    (hacyclic : WellFounded fun a b => a ∈ topology.dependents b)
    (h : (machine (T := T) k DataModel.lp64.longMax topology).Reachable s)
    (hstarved : ∀ c, Starved DataModel.lp64.longMax topology s c)
    (hstalled : ∀ p, Stalled k DataModel.lp64.longMax topology s p) :
    (∀ p, s.sequencer.publisher p = .idle) ∧ s.sequencer.cursor = s.sequencer.lastClaimed ∧
      ∀ c, ((s.consumer c).delivered.length : Int) = s.sequencer.cursor + 1 := by
  have hinv := Inv.of_reachable hk hcovered h
  have hlong : int64Max ≤ DataModel.lp64.longMax := Int.le_refl _
  have hcaught : ∀ c, (s.consumer c).sequence = s.sequencer.cursor :=
    fun c => hinv.starved hlong hacyclic hstarved
  have hidle := hinv.first_pending hk hlong hcaught hstalled
  refine ⟨hidle, ?_, fun c => ?_⟩
  · obtain ⟨pending, hpending⟩ := hinv.sequencer.pending
    cases pending with
    | nil => exact hpending.chain
    | cons e rest =>
      have hheld := (hpending.held e.thread e.sequence e.delta).mpr List.mem_cons_self
      simp only [State.gated, hidle] at hheld
      cases hheld
  · have hle := (hinv.consumer c).le_delivered
    have hreleased := (hinv.consumer c).released.1
    have hcommitted := hcaught c
    omega

theorem twoStages_acyclic : WellFounded fun a b => a ∈ twoStages.dependents b := by
  have hfalse : Acc (fun a b => a ∈ twoStages.dependents b) false :=
    .intro false fun a ha => absurd ha List.not_mem_nil
  constructor
  intro c
  cases c with
  | false => exact hfalse
  | true =>
    constructor
    intro a ha
    rwa [List.mem_singleton.mp ha]

/-- One value goes through both consumers. -/
def oneValue : List (Action Nat Bool) :=
  [.publisher (.claim 0 1), .publisher (.check 0), .publisher (.write 0 0 7), .publisher (.finish 0),
    .publisher (.synchronize 0), .publisher (.publish 0),
    .get false none, .scan false, .deliver false, .commit false, .finishBatch false,
    .get true none, .scan true, .scan true, .deliver true, .commit true, .finishBatch true]

theorem pipeline_progress_one : ∃ s : State Nat Bool, s.sequencer.cursor = 0 ∧
    ∀ c, ((s.consumer c).delivered.length : Int) = s.sequencer.cursor + 1 := by
  have hrun : ∃ s : State Nat Bool,
      (machine 1 int64Max twoStages).exec (machine 1 int64Max twoStages).start oneValue = some s ∧
      s.sequencer.cursor = 0 ∧ (∀ c, (s.consumer c).pc = .idle ∧ (s.consumer c).isBatch = false ∧
        (s.consumer c).sequence = 0) ∧ ∀ p, s.sequencer.publisher p = .idle := by
    refine ⟨_, rfl, rfl, by decide, ?_⟩
    intro p
    by_cases hp : p = 0
    · subst hp
      rfl
    · iterate 5 refine (Function.update_of_ne hp _ _).trans ?_
      rfl
  obtain ⟨s, hs, hcursor, hc, hp⟩ := hrun
  refine ⟨s, hcursor, ?_⟩
  refine (pipeline_progress (k := 1) (by decide) twoStages_covered twoStages_acyclic
    (Machine.reachable_of_exec hs) ?_ ?_).2.2
  · intro c
    obtain ⟨hpc, hbatch, hsequence⟩ := hc c
    refine ⟨by rw [hpc]; exact hbatch, ?_⟩
    rw [hsequence]
    cases c with
    | false =>
      show s.sequencer.cursor < 1
      omega
    | true =>
      show getMinimumSequence int64Max [(s.consumer false).sequence] < 1
      rw [(hc false).2.2]
      decide
  · intro p
    simp only [Stalled, hp]

/-! ### The end of `LONG_MAX` -/

/-- A minimum over dependents does not leave the range of `long`. -/
structure Capped (longMax : Int) (topology : Topology C) (c : C) (x : Consumer T) : Prop where
  available : topology.dependents c ≠ [] → x.available ≤ longMax
  next : topology.dependents c ≠ [] → x.nextSequence ≤ longMax + 1
  minimum : ∀ n m r, x.pc = .scan n m r → m ≤ longMax

variable {x : Consumer T}

theorem Capped.hasEvents (h : Capped longMax topology c x) {v : Int}
    (hv : topology.dependents c ≠ [] → v ≤ longMax) (size : Nat) (requested : Option Nat) :
    Capped longMax topology c ({ x with available := v }.hasEvents size requested) := by
  simp only [Consumer.hasEvents]
  split
  · exact ⟨hv, h.next, by simp⟩
  · exact ⟨hv, h.next, by simp⟩

theorem Capped.test (h : Capped longMax topology c x) {v : Int} (hlong : -1 ≤ longMax)
    (hv : topology.dependents c ≠ [] → v ≤ longMax) (strategy : WaitStrategy) (requested : Option Nat) :
    Capped longMax topology c (x.test strategy v requested) := by
  simp only [Consumer.test]
  split
  · cases strategy with
    | spinning => exact ⟨h.available, h.next, by simp⟩
    | dontWait =>
      apply h.hasEvents
      intro _
      simp only [kNotReadySignal]
      omega
  · exact h.hasEvents hv _ _

theorem Capped.rescan (h : Capped longMax topology c x) {n : Nat} {m : Int} (hm : m ≤ longMax)
    (requested : Option Nat) : Capped longMax topology c { x with pc := .scan n m requested } := by
  refine ⟨h.available, h.next, ?_⟩
  intro n' m' r hpc
  cases hpc
  exact hm

variable [DecidableEq C]

theorem Capped.setConsumer (h : ∀ d, Capped longMax topology d (s.consumer d)) {y : Consumer T}
    (hy : Capped longMax topology c y) (d : C) :
    Capped longMax topology d ((s.setConsumer c y).consumer d) := by
  by_cases hd : d = c
  · subst hd
    simpa only [State.setConsumer, Function.update_self] using hy
  · simpa only [State.setConsumer, Function.update_of_ne hd] using h d

theorem Capped.step (hlong : -1 ≤ longMax) {a : Action T C} (hinv : Inv k topology s)
    (h : ∀ c, Capped longMax topology c (s.consumer c))
    (hs : Pipeline.step k longMax topology s a = some t) :
    ∀ c, Capped longMax topology c (t.consumer c) := by
  cases a with
  | publisher a =>
    cases a with
    | advance gate sequence => cases hs
    | _ =>
      obtain ⟨q, _, rfl⟩ := Option.map_eq_some_iff.mp hs
      exact h
  | get c requested =>
    simp only [Pipeline.step] at hs
    split at hs
    · rename_i hpc
      cases hs
      apply Capped.setConsumer h
      simp only [Consumer.get]
      split
      · exact (h c).hasEvents (h c).available _ _
      · rename_i hbatch
        rw [Consumer.isBatch, decide_eq_true_eq] at hbatch
        rw [← ((hinv.consumer c).at hpc).1.resolve_left hbatch]
        exact (h c).rescan (Int.le_refl _) requested
    · cases hs
  | scan c =>
    simp only [Pipeline.step] at hs
    split at hs
    · rename_i n m requested hpc
      cases hs
      apply Capped.setConsumer h
      have hm := (h c).minimum n m requested hpc
      simp only [State.scan]
      split
      · rename_i hnone
        exact (h c).test hlong (fun hne => absurd hnone hne) _ _
      · split
        · apply (h c).rescan
          split <;> omega
        · exact (h c).test hlong (fun _ => hm) _ _
    · cases hs
  | checkAlerted c =>
    simp only [Pipeline.step] at hs
    split at hs
    · cases hs
      apply Capped.setConsumer h
      split
      · apply (h c).hasEvents
        intro _
        simp only [kAlertedSignal]
        omega
      · exact (h c).rescan (Int.le_refl _) _
    · cases hs
  | deliver c =>
    simp only [Pipeline.step] at hs
    split at hs
    · obtain ⟨_, rfl⟩ := Option.ite_none_right_eq_some.mp hs |>.imp_right Option.some.inj
      exact Capped.setConsumer h ⟨(h c).available, (h c).next, by simp⟩
    · cases hs
  | commit c =>
    simp only [Pipeline.step] at hs
    split at hs
    · rename_i i size hpc
      obtain ⟨_, rfl⟩ := Option.ite_none_left_eq_some.mp hs |>.imp_right Option.some.inj
      obtain ⟨_, hsize⟩ := ((hinv.consumer c).at hpc).1
      apply Capped.setConsumer h
      refine ⟨(h c).available, ?_, ?_⟩
      · intro hne
        have hle := (h c).available hne
        simp only [Consumer.commit]
        omega
      · intro n m r
        simp only [Consumer.commit]
        split <;> simp
    · cases hs
  | finishBatch c =>
    simp only [Pipeline.step] at hs
    split at hs
    · cases hs
      exact Capped.setConsumer h ⟨(h c).available, (h c).next, by simp⟩
    · cases hs
  | setAlerted c alert =>
    simp only [Pipeline.step] at hs
    cases hs
    exact Capped.setConsumer h ⟨(h c).available, (h c).next, (h c).minimum⟩

/-- A consumer with dependents is never handed a sequence that `long` does not hold, and where it gates the
publishers the cursor stays within one ring of that. -/
theorem pipeline_ends [Inhabited T] (model : DataModel) (hk : k ≤ 63) (hcovered : Covered topology)
    (h : (machine (T := T) k model.longMax topology).Reachable s) {c : C}
    (hdependents : topology.dependents c ≠ []) :
    ((s.consumer c).delivered.length : Int) ≤ model.longMax + 1 ∧
      (c ∈ topology.gatingSequences → s.sequencer.cursor ≤ model.longMax + 2 ^ k) := by
  obtain ⟨hinv, hcapped⟩ : Inv k topology s ∧ ∀ c, Capped model.longMax topology c (s.consumer c) := by
    refine h.invariant
      (P := fun s => Inv k topology s ∧ ∀ c, Capped model.longMax topology c (s.consumer c)) ?_ ?_
    · refine ⟨.initial, fun c => ⟨fun _ => model.neg_one_le_longMax, fun _ => ?_, ?_⟩⟩
      · have hlong := model.neg_one_le_longMax
        simp only [machine, Consumer.initial]
        omega
      · simp [machine, Consumer.initial]
    · intro _ _ _ hi hs
      exact ⟨hi.1.step hk hcovered hs, Capped.step model.neg_one_le_longMax hi.1 hi.2 hs⟩
  have hlength := (hinv.consumer c).length
  have hnext := (hcapped c).next hdependents
  have havailable := (hcapped c).available hdependents
  refine ⟨?_, fun hc => ?_⟩
  · cases hpc : (s.consumer c).pc with
    | deliver i size =>
      obtain ⟨⟨_, _⟩, hlength⟩ := (hinv.consumer c).at hpc
      rw [ConsumerPc.ahead] at hlength
      omega
    | _ =>
      rw [hpc] at hlength
      simp only [ConsumerPc.ahead] at hlength
      omega
  · obtain ⟨i, hi, hci⟩ := List.getElem_of_mem hc
    have hsequence := (hinv.consumer c).sequence
    rcases Int.lt_or_le s.sequencer.cursor 0 with hneg | hpos
    · have hlong := model.neg_one_le_longMax
      have hpow : (0 : Int) < 2 ^ k := by positivity
      omega
    · -- the last published sequence has been written within one ring of the gating one
      have hwritten := hinv.sequencer.visible s.sequencer.cursor hpos (Int.le_refl _)
      have hroom := hinv.sequencer.room _ hwritten i hi
      simp only [State.gated, List.getElem?_eq_getElem hi, hci, Option.elim_some] at hroom
      omega

theorem pipeline_ends_one : ∃ s : State Nat Bool, (s.consumer true).delivered = [7] ∧
    (((s.consumer true).delivered.length : Int) ≤ DataModel.llp64.longMax + 1 ∧
      (true ∈ twoStages.gatingSequences → s.sequencer.cursor ≤ DataModel.llp64.longMax + 2 ^ 1)) := by
  obtain ⟨s, hs, hd⟩ : ∃ s : State Nat Bool,
      (machine 1 DataModel.llp64.longMax twoStages).exec
        (machine 1 DataModel.llp64.longMax twoStages).start oneValue = some s ∧
      (s.consumer true).delivered = [7] := ⟨_, rfl, rfl⟩
  exact ⟨s, hd, pipeline_ends .llp64 (by decide) twoStages_covered (Machine.reachable_of_exec hs)
    (List.cons_ne_nil _ _)⟩

end Dumbo.Disruptor.Pipeline
