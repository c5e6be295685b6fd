import Dumbo.Disruptor.BlockingWakeups

/-!
# Barriers of a sequencer

`Sequencer::NewBarrier` with the `BlockingStrategy`. A strategy is a member of the object that it is constructed
with, a sequencer or a barrier, and is told by the number of strategies constructed before it. Barriers are made
at any time, each for one consumer, and none is destroyed.
-/

namespace Dumbo.Disruptor.Blocking

open Transition

variable {C P : Type}

structure SequenceBarrier (C : Type) where
  waitStrategy : Nat
  dependents : List C

structure Sequencer (C : Type) where
  waitStrategy : Nat
  /-- the barriers that it has made -/
  barrier : C → Option (SequenceBarrier C)
  /-- how many strategies have been constructed -/
  strategies : Nat

namespace Sequencer

def create : Sequencer C := ⟨0, fun _ => none, 1⟩

/-- The members of the new barrier are constructed with it, its strategy among them. -/
def newBarrier [DecidableEq C] (q : Sequencer C) (c : C) (dependents : List C) : Sequencer C :=
  { q with
    barrier := Function.update q.barrier c (some ⟨q.strategies, dependents⟩)
    strategies := q.strategies + 1 }

/-- `WaitFor` of a barrier waits in the strategy of the barrier, and `Publish` signals that of the sequencer. -/
def topology (q : Sequencer C) : Topology C Nat where
  strategy c := (q.barrier c).elim q.strategies SequenceBarrier.waitStrategy
  signalled := q.waitStrategy
  dependents c := (q.barrier c).elim [] SequenceBarrier.dependents

end Sequencer

structure System (C P : Type) where
  sequencer : Sequencer C
  threads : State C P Nat

namespace System

inductive Action (C P : Type)
  | newBarrier (c : C) (dependents : List C)
  | run (a : Blocking.Action C P)

variable [DecidableEq C] [DecidableEq P]

/-- Every consumer comes with a barrier. -/
def step (longMax : Int) (s : System C P) : Action C P → Option (System C P)
  | .newBarrier c dependents =>
    if (s.sequencer.barrier c).isNone then some { s with sequencer := s.sequencer.newBarrier c dependents }
    else none
  | .run a =>
    if a.consumer.all fun c => (s.sequencer.barrier c).isSome then
      (Blocking.step longMax s.sequencer.topology s.threads a).map fun t => { s with threads := t }
    else none

def machine (longMax : Int) : Machine (System C P) (Action C P) :=
  ⟨⟨.create, .initial⟩, step longMax⟩

end System

/-! ### The strategies are apart -/

/-- No two of the objects share a strategy. -/
structure Sequencer.Apart (q : Sequencer C) : Prop where
  own : q.waitStrategy < q.strategies
  barrier : ∀ c b, q.barrier c = some b → q.waitStrategy < b.waitStrategy ∧ b.waitStrategy < q.strategies
  barriers : ∀ c d b b', q.barrier c = some b → q.barrier d = some b' → c ≠ d → b.waitStrategy ≠ b'.waitStrategy

namespace Sequencer

variable {q : Sequencer C}

theorem Apart.create : Apart (create : Sequencer C) := by
  refine ⟨Nat.zero_lt_one, ?_, ?_⟩
  · intro c b hb
    cases hb
  · intro c d b b' hb
    cases hb

theorem newBarrier_self [DecidableEq C] (q : Sequencer C) (c : C) (dependents : List C) :
    (q.newBarrier c dependents).barrier c = some ⟨q.strategies, dependents⟩ := Function.update_self _ _ _

theorem newBarrier_of_ne [DecidableEq C] {c d : C} (hd : d ≠ c) (q : Sequencer C) (dependents : List C) :
    (q.newBarrier c dependents).barrier d = q.barrier d := Function.update_of_ne hd _ _

theorem Apart.newBarrier [DecidableEq C] (h : q.Apart) (c : C) (dependents : List C) :
    (q.newBarrier c dependents).Apart := by
  have hcases : ∀ d b, (q.newBarrier c dependents).barrier d = some b →
      d = c ∧ b.waitStrategy = q.strategies ∨ q.barrier d = some b := by
    intro d b hb
    by_cases hd : d = c
    · rw [hd, newBarrier_self] at hb
      obtain rfl := Option.some.inj hb
      exact .inl ⟨hd, rfl⟩
    · rw [newBarrier_of_ne hd] at hb
      exact .inr hb
  refine ⟨Nat.lt_succ_of_lt h.own, ?_, ?_⟩
  · intro d b hb
    show q.waitStrategy < b.waitStrategy ∧ b.waitStrategy < q.strategies + 1
    rcases hcases d b hb with ⟨_, hnew⟩ | hold
    · rw [hnew]
      exact ⟨h.own, Nat.lt_succ_self _⟩
    · have hbound := h.barrier d b hold
      exact ⟨hbound.1, Nat.lt_succ_of_lt hbound.2⟩
  · intro d e b b' hb hb' hne
    rcases hcases d b hb with ⟨hd, hnew⟩ | hold
    · rcases hcases e b' hb' with ⟨he, _⟩ | hold'
      · exact absurd (hd.trans he.symm) hne
      · rw [hnew]
        exact (h.barrier e b' hold').2.ne'
    · rcases hcases e b' hb' with ⟨_, hnew'⟩ | hold'
      · rw [hnew']
        exact (h.barrier d b hold).2.ne
      · exact h.barriers d e b b' hold hold' hne

theorem Apart.strategy_ne (h : q.Apart) (c : C) : q.topology.strategy c ≠ q.topology.signalled := by
  show (q.barrier c).elim q.strategies SequenceBarrier.waitStrategy ≠ q.waitStrategy
  cases hb : q.barrier c with
  | none => exact h.own.ne'
  | some b => exact (h.barrier c b hb).1.ne'

end Sequencer

/-! ### Runs -/

namespace System

variable [DecidableEq C] [DecidableEq P] {longMax : Int} {s t : System C P} {c : C}

structure Inv (s : System C P) : Prop where
  apart : s.sequencer.Apart
  /-- a consumer calls the barrier that has been made for it -/
  barrier : ∀ c, s.threads.consumer c ≠ .idle → (s.sequencer.barrier c).isSome

theorem Inv.threads (h : Inv s) {a : Blocking.Action C P} {u : State C P Nat}
    (ha : a.consumer.all fun c => (s.sequencer.barrier c).isSome)
    (hu : Blocking.step longMax s.sequencer.topology s.threads a = some u) :
    Inv { s with threads := u } := by
  refine ⟨h.apart, ?_⟩
  intro c hc
  by_contra hnone
  have hidle : s.threads.consumer c = .idle := by
    by_contra hbusy
    exact hnone (h.barrier c hbusy)
  have hne : a.consumer ≠ some c := by
    intro he
    rw [he] at ha
    exact hnone ha
  rcases step_other hne hu with hsame | ⟨_, hnotified⟩
  · exact hc (hsame.trans hidle)
  · rw [hidle] at hnotified
    exact hc hnotified

theorem Inv.step {a : Action C P} (h : Inv s) (hs : System.step longMax s a = some t) : Inv t := by
  cases a with
  | newBarrier c dependents =>
    obtain ⟨_, rfl⟩ := Option.ite_none_right_eq_some.mp hs |>.imp_right Option.some.inj
    refine ⟨h.apart.newBarrier c dependents, ?_⟩
    intro d hd
    show ((s.sequencer.newBarrier c dependents).barrier d).isSome = true
    by_cases hdc : d = c
    · rw [hdc, Sequencer.newBarrier_self]
      rfl
    · rw [Sequencer.newBarrier_of_ne hdc]
      exact h.barrier d hd
  | run a =>
    obtain ⟨ha, hs⟩ := Option.ite_none_right_eq_some.mp hs
    obtain ⟨u, hu, rfl⟩ := Option.map_eq_some_iff.mp hs
    exact h.threads ha hu

theorem Inv.of_reachable (h : (machine longMax).Reachable s) : Inv s := by
  apply h.invariant (P := Inv)
  · refine ⟨.create, ?_⟩
    intro c hc
    exact absurd rfl hc
  · intro s a t hs hstep
    exact hs.step hstep

theorem Inv.blocked {a : Action C P} (h : Inv s) {call : Call}
    (hquiet : a ≠ .run (.timeout c) ∧ a ≠ .run (.spurious c)) (hc : s.threads.consumer c = .blocked call)
    (hs : System.step longMax s a = some t) : t.threads.consumer c = .blocked call := by
  cases a with
  | newBarrier d dependents =>
    obtain ⟨_, rfl⟩ := Option.ite_none_right_eq_some.mp hs |>.imp_right Option.some.inj
    exact hc
  | run a =>
    obtain ⟨_, hs⟩ := Option.ite_none_right_eq_some.mp hs
    obtain ⟨u, hu, rfl⟩ := Option.map_eq_some_iff.mp hs
    refine blocked_apart (h.apart.strategy_ne c) ⟨?_, ?_⟩ hc hu
    · rintro rfl
      exact hquiet.1 rfl
    · rintro rfl
      exact hquiet.2 rfl

end System

variable [DecidableEq C] [DecidableEq P] {longMax : Int} {s t : System C P} {c : C}

/-- A consumer that blocks is behind a barrier with a strategy of its own, which is neither the sequencer's nor
that of another barrier; whatever is published, signalled or alerted, and whatever barriers are made, it stays
blocked until it times out or is woken spuriously. -/
theorem blocked_behind_barrier (h : (System.machine longMax).Reachable s) {call : Call}
    (hc : s.threads.consumer c = .blocked call) :
    (∃ b, s.sequencer.barrier c = some b ∧ b.waitStrategy ≠ s.sequencer.waitStrategy ∧
      ∀ d b', s.sequencer.barrier d = some b' → d ≠ c → b'.waitStrategy ≠ b.waitStrategy) ∧
    ∀ as : List (System.Action C P), (∀ a ∈ as, a ≠ .run (.timeout c) ∧ a ≠ .run (.spurious c)) →
      (System.machine longMax).exec s as = some t → t.threads.consumer c = .blocked call := by
  have hinv := System.Inv.of_reachable h
  constructor
  · obtain ⟨b, hb⟩ := Option.isSome_iff_exists.mp (hinv.barrier c (by rw [hc]; simp))
    refine ⟨b, hb, (hinv.apart.barrier c b hb).1.ne', ?_⟩
    intro d b' hd hne
    exact hinv.apart.barriers d c b' b hd hb hne
  · intro as hquiet hrun
    clear h
    induction as generalizing s with
    | nil =>
      rw [Machine.exec, Option.some.injEq] at hrun
      exact hrun ▸ hc
    | cons a as ih =>
      obtain ⟨u, hu, hrun⟩ := Machine.exec_cons.mp hrun
      apply ih (hinv.blocked (hquiet a List.mem_cons_self) hc hu) (hinv.step hu) _ hrun
      intro b hb
      exact hquiet b (List.mem_cons_of_mem a hb)

/-- The sequence is published and signalled, the barrier alerted, and another barrier made. -/
theorem blocked_behind_barrier_published : ∃ s t : System Bool Unit,
    s.threads.consumer true = .blocked ⟨0, false⟩ ∧ t.threads.cursor = 0 ∧ t.threads.alerted true = true ∧
      t.threads.publisher () = .idle ∧ t.threads.consumer true = .blocked ⟨0, false⟩ := by
  obtain ⟨s, hs, hc⟩ : ∃ s : System Bool Unit, (System.machine 0).exec ⟨.create, .initial⟩
      (.newBarrier true [] :: .run (.waitFor true ⟨0, false⟩) :: List.replicate 5 (.run (.go true))) = some s ∧
        s.threads.consumer true = .blocked ⟨0, false⟩ := ⟨_, rfl, rfl⟩
  obtain ⟨as, has⟩ : ∃ as : List (System.Action Bool Unit), as = [.run (.publish () 1), .run (.acquire ()),
      .newBarrier false [true], .run (.notifyAll ()), .run (.release ()), .run (.setAlerted true true)] :=
    ⟨_, rfl⟩
  have hrun : ∃ t : System Bool Unit, (System.machine 0).exec s as = some t ∧ t.threads.cursor = 0 ∧
      t.threads.alerted true = true ∧ t.threads.publisher () = .idle := by
    cases hs
    rw [has]
    exact ⟨_, rfl, rfl, rfl, rfl⟩
  obtain ⟨t, ht, hcursor, halerted, hpublisher⟩ := hrun
  refine ⟨s, t, hc, hcursor, halerted, hpublisher, ?_⟩
  refine (blocked_behind_barrier (Machine.reachable_of_exec hs) hc).2 as ?_ ht
  rw [has]
  simp

end Dumbo.Disruptor.Blocking
