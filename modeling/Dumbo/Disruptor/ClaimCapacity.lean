import Dumbo.Disruptor.ClaimStrategy

/-!
# When a claim has to wait

The minimum of the gating sequences is taken from `LONG_MAX` on. The `MultiThreadedStrategy` is seen
as a `SingleThreadedStrategy`, step by step.
-/

namespace Dumbo.Disruptor

open Transition
open Sequencer (int64Max minusSize minusSize_eq)

theorem getMinimumSequence_eq {longMax slowest : Int} {gating : List Int}
    (hmin : gating.min? = some slowest) :
    getMinimumSequence longMax gating = min longMax slowest := by
  have hfold : getMinimumSequence longMax gating = gating.foldl min longMax := by
    rw [getMinimumSequence]
    congr 1
    funext minimum sequence
    rw [min_def_lt]
  rw [hfold, List.foldl_min, hmin, Option.getD_some]

theorem plusSize_eq {a : Int} {n : Nat} (h : -1 ≤ a) (h' : a + n ≤ int64Max) :
    plusSize a n = a + n := by
  simp only [int64Max] at h'
  apply Int.bmod_eq_of_le
  · omega
  · omega

theorem getMinimumSequence_le {longMax g : Int} {gating : List Int} (hg : g ∈ gating) :
    getMinimumSequence longMax gating ≤ g := by
  obtain ⟨slowest, hmin⟩ := Option.isSome_iff_exists.mp (List.isSome_min?_of_mem hg)
  rw [getMinimumSequence_eq hmin]
  exact Int.le_trans (min_le_right _ _) ((List.min?_eq_some_iff.mp hmin).2 g hg)

theorem getMinimumSequence_le_longMax (longMax : Int) (gating : List Int) :
    getMinimumSequence longMax gating ≤ longMax := by
  cases hmin : gating.min? with
  | none =>
    rw [List.min?_eq_none_iff] at hmin
    rw [hmin]
    exact Int.le_refl _
  | some slowest =>
    rw [getMinimumSequence_eq hmin]
    exact min_le_left _ _

theorem DataModel.neg_one_le_longMax (model : DataModel) : -1 ≤ model.longMax := by
  cases model <;> decide

/-! ### One strategy seen as the other -/

namespace MultiThreadedStrategy

/-- The counters without their type. -/
def view (s : MultiThreadedStrategy) : SingleThreadedStrategy :=
  ⟨s.lastClaimedSequence.sequence, s.lastConsumerSequence.sequence⟩

theorem increment_view (s : MultiThreadedStrategy) (delta : Nat) :
    s.view.increment delta = ((s.increment delta).1.view, (s.increment delta).2) := by
  have hsum : plusSize s.lastClaimedSequence.sequence delta =
      (s.lastClaimedSequence.sequence + toInt64 delta).bmod 18446744073709551616 := by
    unfold plusSize toInt64
    rw [Int.add_bmod_bmod]
  simp only [SingleThreadedStrategy.increment, increment, view, Sequence.incrementAndGet, hsum]

theorem hasAvailableCapacity_view (longMax : Int) (N : Nat) (s : MultiThreadedStrategy)
    (dependents : List Int) : s.view.hasAvailableCapacity longMax N dependents =
      ((s.hasAvailableCapacity longMax N dependents).1.view,
        (s.hasAvailableCapacity longMax N dependents).2) := by
  have hclaimed : s.view.lastClaimedSequence = s.lastClaimedSequence.sequence := rfl
  have hconsumer : s.view.lastConsumerSequence = s.lastConsumerSequence.sequence := rfl
  simp only [SingleThreadedStrategy.hasAvailableCapacity, hasAvailableCapacity, hclaimed, hconsumer]
  split_ifs
  · rfl
  · rfl

end MultiThreadedStrategy

namespace ClaimStrategy

variable {P : Type} [DecidableEq P] {longMax : Int} {N : Nat}

theorem enters_view (s : MultiThreadedStrategy) (next : Int) : enters N s.view next = enters N s next :=
  rfl

def State.view (s : State MultiThreadedStrategy P) : State SingleThreadedStrategy P :=
  ⟨s.strategy.view, s.gating, s.publisher, s.answers⟩

theorem step_view (longMax : Int) (N : Nat) (s : State MultiThreadedStrategy P) (a : Action P) :
    step longMax N s.view a = (step longMax N s a).map State.view := by
  cases a with
  | incrementAndGet p delta =>
    have hincrement : increment s.view.strategy delta =
        ((increment s.strategy delta).1.view, (increment s.strategy delta).2) :=
      s.strategy.increment_view delta
    have hlast : lastClaimed s.view.strategy = lastClaimed s.strategy := rfl
    have hp : s.view.publisher p = s.publisher p := rfl
    simp only [step, hp, hincrement, hlast, enters_view]
    cases s.publisher p with
    | waiting => rfl
    | idle =>
      simp only
      split_ifs
      · rfl
      · rfl
      · rfl
  | poll p =>
    have hp : s.view.publisher p = s.publisher p := rfl
    have hgating : s.view.gating = s.gating := rfl
    simp only [step, hp, hgating]
    cases s.publisher p with
    | idle => rfl
    | waiting next =>
      simp only
      split_ifs
      · rfl
      · rfl
  | hasAvailableCapacity p =>
    have hcheck : hasAvailableCapacity longMax N s.view.strategy s.view.gating =
        ((hasAvailableCapacity longMax N s.strategy s.gating).1.view,
          (hasAvailableCapacity longMax N s.strategy s.gating).2) :=
      s.strategy.hasAvailableCapacity_view longMax N s.gating
    have hlast : lastClaimed s.view.strategy = lastClaimed s.strategy := rfl
    have hp : s.view.publisher p = s.publisher p := rfl
    simp only [step, hp, hcheck, hlast]
    cases s.publisher p with
    | waiting => rfl
    | idle =>
      simp only
      split_ifs
      · rfl
      · rfl
  | advance gate sequence =>
    have hgating : s.view.gating = s.gating := rfl
    simp only [step, hgating]
    split_ifs
    · rfl
    · rfl

theorem reachable_view {gating : List Int} {s : State MultiThreadedStrategy P}
    (hs : (machine MultiThreadedStrategy P longMax N gating).Reachable s) :
    (machine SingleThreadedStrategy P longMax N gating).Reachable s.view := by
  apply hs.map State.view rfl
  intro s a t hstep
  have hview := step_view longMax N s a
  rw [show step longMax N s a = some t from hstep] at hview
  exact hview

/-! ### What holds in every run -/

structure Inv (longMax : Int) (s : State SingleThreadedStrategy P) : Prop where
  claimed : -1 ≤ lastClaimed s.strategy ∧ lastClaimed s.strategy ≤ int64Max
  waiting : ∀ p next, s.publisher p = .waiting next → 0 ≤ next ∧ next ≤ int64Max
  cached : ∀ g ∈ s.gating, lastConsumer s.strategy ≤ g
  bounded : lastConsumer s.strategy ≤ longMax

variable {s t : State SingleThreadedStrategy P} {p : P} {next : Int} {delta : Nat}

theorem waiting_wait (hwaiting : ∀ p next, s.publisher p = .waiting next → 0 ≤ next ∧ next ≤ int64Max)
    (hnext : 0 ≤ next ∧ next ≤ int64Max) (q : P) (n : Int)
    (hq : (s.wait p next).publisher q = .waiting n) : 0 ≤ n ∧ n ≤ int64Max := by
  by_cases he : q = p
  · subst he
    rw [State.wait_publisher, Function.update_self, Pc.waiting.injEq] at hq
    exact hq ▸ hnext
  · rw [State.wait_publisher, Function.update_of_ne he] at hq
    exact hwaiting q n hq

theorem waiting_claimed
    (hwaiting : ∀ p next, s.publisher p = .waiting next → 0 ≤ next ∧ next ≤ int64Max) (q : P) (n : Int)
    (hq : (s.claimed p next).publisher q = .waiting n) : 0 ≤ n ∧ n ≤ int64Max := by
  by_cases he : q = p
  · subst he
    rw [State.claimed_publisher, Function.update_self] at hq
    cases hq
  · rw [State.claimed_publisher, Function.update_of_ne he] at hq
    exact hwaiting q n hq

theorem Inv.incrementAndGet (h : Inv longMax s) (hdelta : 1 ≤ delta)
    (hmax : lastClaimed s.strategy + delta ≤ int64Max) :
    Inv longMax ({ s with strategy := (increment s.strategy delta).1 }.wait p (increment s.strategy delta).2) ∧
      Inv longMax ({ s with strategy := (increment s.strategy delta).1 }.claimed p
        (increment s.strategy delta).2) := by
  have hnext : (increment s.strategy delta).2 = lastClaimed s.strategy + delta :=
    plusSize_eq h.claimed.1 hmax
  have hrange : 0 ≤ (increment s.strategy delta).2 ∧ (increment s.strategy delta).2 ≤ int64Max := by
    rw [hnext]
    exact ⟨by have := h.claimed.1; omega, hmax⟩
  have hclaimed : -1 ≤ (increment s.strategy delta).2 ∧ (increment s.strategy delta).2 ≤ int64Max :=
    ⟨by omega, hrange.2⟩
  exact ⟨⟨hclaimed, waiting_wait h.waiting hrange, h.cached, h.bounded⟩,
    ⟨hclaimed, waiting_claimed h.waiting, h.cached, h.bounded⟩⟩

omit [DecidableEq P] in
theorem Inv.check (h : Inv longMax s) (answers : List (P × Answer)) :
    Inv longMax { s with
      strategy := (hasAvailableCapacity longMax N s.strategy s.gating).1
      answers := answers } := by
  have hcases : (hasAvailableCapacity longMax N s.strategy s.gating).1 = s.strategy ∨
      (hasAvailableCapacity longMax N s.strategy s.gating).1 =
        ⟨lastClaimed s.strategy, getMinimumSequence longMax s.gating⟩ := by
    change (s.strategy.hasAvailableCapacity longMax N s.gating).1 = s.strategy ∨
      (s.strategy.hasAvailableCapacity longMax N s.gating).1 = _
    rw [SingleThreadedStrategy.hasAvailableCapacity]
    dsimp only
    split_ifs
    · exact .inr rfl
    · exact .inl rfl
  rcases hcases with he | he
  · rw [he]
    exact ⟨h.claimed, h.waiting, h.cached, h.bounded⟩
  · rw [he]
    exact ⟨h.claimed, h.waiting, fun g hg => getMinimumSequence_le hg,
      getMinimumSequence_le_longMax _ _⟩

omit [DecidableEq P] in
theorem Inv.advance (h : Inv longMax s) {gate : Nat} {sequence : Int}
    (hgate : s.gating[gate]?.any (· ≤ sequence) = true) :
    Inv longMax { s with gating := s.gating.set gate sequence } := by
  refine ⟨h.claimed, h.waiting, fun g hg => ?_, h.bounded⟩
  rcases List.mem_or_eq_of_mem_set hg with hg | rfl
  · exact h.cached g hg
  · rw [Option.any_eq_true] at hgate
    obtain ⟨old, hold, hle⟩ := hgate
    exact Int.le_trans (h.cached old (List.mem_of_getElem? hold)) (of_decide_eq_true hle)

theorem Inv.step (h : Inv longMax s) {a : Action P} (hs : step longMax N s a = some t) : Inv longMax t := by
  cases a with
  | incrementAndGet p delta =>
    simp only [ClaimStrategy.step] at hs
    split at hs
    · rw [Option.ite_none_right_eq_some, Option.some.injEq] at hs
      obtain ⟨⟨hdelta, hmax⟩, rfl⟩ := hs
      obtain ⟨hwait, hclaimed⟩ := h.incrementAndGet (p := p) hdelta hmax
      split_ifs
      · exact hwait
      · exact hclaimed
    · exact absurd hs (by simp)
  | poll p =>
    simp only [ClaimStrategy.step] at hs
    split at hs
    · rw [Option.some.injEq] at hs
      subst hs
      split_ifs
      · exact h
      · exact ⟨h.claimed, waiting_claimed h.waiting, h.cached, h.bounded⟩
    · exact absurd hs (by simp)
  | hasAvailableCapacity p =>
    simp only [ClaimStrategy.step] at hs
    split at hs
    · rw [Option.ite_none_right_eq_some, Option.some.injEq] at hs
      exact hs.2 ▸ h.check _
    · exact absurd hs (by simp)
  | advance gate sequence =>
    simp only [ClaimStrategy.step] at hs
    rw [Option.ite_none_right_eq_some, Option.some.injEq] at hs
    exact hs.2 ▸ h.advance hs.1.1

theorem Inv.of_reachable {gating : List Int} (hlong : -1 ≤ longMax) (hgating : ∀ g ∈ gating, -1 ≤ g)
    (hs : (machine SingleThreadedStrategy P longMax N gating).Reachable s) : Inv longMax s := by
  apply hs.invariant (P := Inv longMax)
  · refine ⟨⟨Int.le_refl _, ?_⟩, fun _ _ hp => ?_, hgating, hlong⟩
    · change (-1 : Int) ≤ int64Max
      decide
    · cases hp
  · exact fun _ _ _ h hstep => h.step hstep

theorem goesOn_iff {gating : List Int} {slowest : Int} (hmin : gating.min? = some slowest)
    (hN : N ≤ 9223372036854775808) (h0 : 0 ≤ next) (hnext : next ≤ int64Max) :
    goesOn longMax N gating next = true ↔ longMax < next - N ∨ slowest < next - N := by
  have hwrap : minusSize next N = next - N := by
    apply minusSize_eq
    · omega
    · omega
  rw [goesOn, hwrap, getMinimumSequence_eq hmin, decide_eq_true_eq, min_lt_iff]

/-! ### Claims that have to wait -/

/-- The smallest gating sequence is found, and a claim that it leaves room for does not stay in the wait
loop. -/
structure WaitsForFullRing (longMax : Int) (N : Nat) (gating : List Int) (slowest : Int) : Prop where
  minimum : getMinimumSequence longMax gating = slowest
  leaves : ∀ next, 0 ≤ next → next ≤ int64Max → next - N ≤ slowest →
    goesOn longMax N gating next = false

/-- No publisher stays in its wait loop while there is room for its claim. -/
def Proceeds {S : Type} [ClaimStrategy S] (longMax : Int) (N : Nat) (s : State S P) : Prop :=
  ∀ p next slowest, s.publisher p = .waiting next → s.gating.min? = some slowest →
    next - N ≤ slowest → ∃ t, step longMax N s (.poll p) = some t ∧ t.publisher p = .idle

theorem waitsForFullRing_iff {gating : List Int} {slowest : Int} (hmin : gating.min? = some slowest)
    (hrange : ∀ g ∈ gating, -1 ≤ g ∧ g ≤ int64Max - N) :
    WaitsForFullRing longMax N gating slowest ↔ slowest ≤ longMax := by
  obtain ⟨hlow, hhigh⟩ := hrange slowest (List.min?_mem hmin)
  simp only [int64Max] at hhigh
  constructor
  · intro h
    have hminimum := h.minimum
    rw [getMinimumSequence_eq hmin] at hminimum
    exact min_eq_right_iff.mp hminimum
  · intro hle
    refine ⟨?_, fun next h0 hnext hroom => ?_⟩
    · rw [getMinimumSequence_eq hmin, min_eq_right hle]
    · rw [← Bool.not_eq_true, goesOn_iff hmin (by omega) h0 hnext]
      omega

theorem Inv.proceeds (h : Inv longMax s) (hN : N ≤ 9223372036854775808)
    (hle : ∀ slowest, s.gating.min? = some slowest → slowest ≤ longMax) : Proceeds longMax N s := by
  intro p next slowest hp hmin hroom
  obtain ⟨h0, hnext⟩ := h.waiting p next hp
  have hslowest := hle slowest hmin
  have hleaves : ¬ goesOn longMax N s.gating next = true := by
    rw [goesOn_iff hmin hN h0 hnext]
    omega
  refine ⟨s.claimed p next, ?_, ?_⟩
  · simp only [ClaimStrategy.step, hp]
    rw [if_neg hleaves]
  · rw [State.claimed_publisher, Function.update_self]

theorem Proceeds.of_view {s : State MultiThreadedStrategy P} (h : Proceeds longMax N s.view) :
    Proceeds longMax N s := by
  intro p next slowest hp hmin hroom
  obtain ⟨t, ht, hidle⟩ := h p next slowest hp hmin hroom
  rw [step_view, Option.map_eq_some_iff] at ht
  obtain ⟨u, hu, rfl⟩ := ht
  exact ⟨u, hu, hidle⟩

/-- A claim waits only for a full ring if and only if the slowest gating sequence is within
`LONG_MAX`. -/
theorem claim_waits_for_full_ring (model : DataModel) {gating : List Int} {slowest : Int}
    (hmin : gating.min? = some slowest) (hrange : ∀ g ∈ gating, -1 ≤ g ∧ g ≤ int64Max - N) :
    (WaitsForFullRing model.longMax N gating slowest ↔ slowest ≤ model.longMax) ∧
    (∀ s, (machine SingleThreadedStrategy P model.longMax N gating).Reachable s →
      (∀ g, s.gating.min? = some g → g ≤ model.longMax) → Proceeds model.longMax N s) ∧
    (∀ s, (machine MultiThreadedStrategy P model.longMax N gating).Reachable s →
      (∀ g, s.gating.min? = some g → g ≤ model.longMax) → Proceeds model.longMax N s) := by
  obtain ⟨hlow, hhigh⟩ := hrange slowest (List.min?_mem hmin)
  simp only [int64Max] at hhigh
  have hN : N ≤ 9223372036854775808 := by omega
  have hgating : ∀ g ∈ gating, -1 ≤ g := fun g hg => (hrange g hg).1
  have hlong := model.neg_one_le_longMax
  refine ⟨waitsForFullRing_iff hmin hrange, fun s hs hle => ?_, fun s hs hle => ?_⟩
  · exact (Inv.of_reachable hlong hgating hs).proceeds hN hle
  · exact ((Inv.of_reachable hlong hgating (reachable_view hs)).proceeds hN hle).of_view

theorem claim_waits_for_full_ring_eight : ([7, 9] : List Int).min? = some 7 ∧
    (∀ g ∈ ([7, 9] : List Int), -1 ≤ g ∧ g ≤ int64Max - (8 : Nat)) ∧
    WaitsForFullRing DataModel.llp64.longMax 8 [7, 9] 7 := by
  have hrange : ∀ g ∈ ([7, 9] : List Int), -1 ≤ g ∧ g ≤ int64Max - (8 : Nat) := by decide
  exact ⟨rfl, hrange,
    (claim_waits_for_full_ring (P := Unit) .llp64 rfl hrange).1.mpr (by decide)⟩

/-- With a `long` of 32 bits the sequence 2^31 of a consumer is not found. -/
theorem claim_waits_beyond_long_max :
    (∀ g ∈ ([2147483648] : List Int), -1 ≤ g ∧ g ≤ int64Max - (8 : Nat)) ∧
    getMinimumSequence DataModel.llp64.longMax [2147483648] = 2147483647 ∧
    goesOn DataModel.llp64.longMax 8 [2147483648] (2147483648 + 8) = true ∧
    ¬ WaitsForFullRing DataModel.llp64.longMax 8 [2147483648] 2147483648 := by
  refine ⟨by decide, by decide, by decide, fun h => ?_⟩
  exact absurd h.minimum (by decide)

/-! ### The cached minimum -/

/-- `HasAvailableCapacity` answers as a claim of one sequence would find it. -/
structure ChecksAgree {S : Type} [ClaimStrategy S] (longMax : Int) (N : Nat) (s : State S P)
    (slowest : Int) : Prop where
  cached : lastConsumer s.strategy ≤ slowest
  returns : (hasAvailableCapacity longMax N s.strategy s.gating).2 = true ↔
    waits longMax N s.strategy s.gating 1 = false
  room : (hasAvailableCapacity longMax N s.strategy s.gating).2 = true ↔
    lastClaimed s.strategy + 1 - N ≤ slowest

theorem answer_iff (longMax : Int) (N : Nat) (s : SingleThreadedStrategy) (gating : List Int) :
    (hasAvailableCapacity longMax N s gating).2 = true ↔
      minusSize (lastClaimed s + 1) N ≤ lastConsumer s ∨
        minusSize (lastClaimed s + 1) N ≤ getMinimumSequence longMax gating := by
  change (s.hasAvailableCapacity longMax N gating).2 = true ↔
    minusSize (s.lastClaimedSequence + 1) N ≤ s.lastConsumerSequence ∨
      minusSize (s.lastClaimedSequence + 1) N ≤ getMinimumSequence longMax gating
  rw [SingleThreadedStrategy.hasAvailableCapacity]
  by_cases h : minusSize (s.lastClaimedSequence + 1) N > s.lastConsumerSequence
  · simp only [if_pos h, Bool.not_eq_true', decide_eq_false_iff_not, gt_iff_lt, not_lt]
    exact ⟨.inr, fun hor => hor.resolve_left (not_le.mpr h)⟩
  · simp only [if_neg h, true_iff]
    exact .inl (not_lt.mp h)

theorem waits_one_iff (longMax : Int) (N : Nat) {s : SingleThreadedStrategy} (gating : List Int) (h : -1 ≤ lastClaimed s)
    (hmax : lastClaimed s + 1 ≤ int64Max) :
    waits longMax N s gating 1 = false ↔
      minusSize (lastClaimed s + 1) N ≤ lastConsumer s ∨
        minusSize (lastClaimed s + 1) N ≤ getMinimumSequence longMax gating := by
  have hsum : plusSize (lastClaimed s) 1 = lastClaimed s + 1 := plusSize_eq h hmax
  have hnext : increment s 1 = (⟨lastClaimed s + 1, lastConsumer s⟩, lastClaimed s + 1) := by
    change Prod.mk (SingleThreadedStrategy.mk (plusSize (lastClaimed s) 1) (lastConsumer s))
      (plusSize (lastClaimed s) 1) = _
    rw [hsum]
  have henters : enters N (⟨lastClaimed s + 1, lastConsumer s⟩ : SingleThreadedStrategy)
      (lastClaimed s + 1) = decide (lastConsumer s < minusSize (lastClaimed s + 1) N) := rfl
  simp only [waits, hnext, henters, goesOn]
  rw [Bool.and_eq_false_iff, decide_eq_false_iff_not, decide_eq_false_iff_not, not_lt, not_lt]

omit [DecidableEq P] in
theorem Inv.checksAgree_iff (h : Inv longMax s) (hN : N ≤ 9223372036854775808)
    (hmax : lastClaimed s.strategy + 1 ≤ int64Max) {slowest : Int}
    (hmin : s.gating.min? = some slowest) :
    ChecksAgree longMax N s slowest ↔
      lastClaimed s.strategy + 1 - N ≤ longMax ∨ slowest < lastClaimed s.strategy + 1 - N := by
  have hlow := h.claimed.1
  have hcached := h.cached slowest (List.min?_mem hmin)
  have hwrap : minusSize (lastClaimed s.strategy + 1) N = lastClaimed s.strategy + 1 - N := by
    apply minusSize_eq
    · omega
    · omega
  have hanswer := answer_iff longMax N s.strategy s.gating
  have hwaits := waits_one_iff longMax N s.gating hlow hmax
  constructor
  · intro hagree
    have hroom := hagree.room
    rw [hanswer, hwrap, getMinimumSequence_eq hmin, le_min_iff] at hroom
    have hbounded := h.bounded
    by_contra hnot
    rw [not_or, not_le, not_lt] at hnot
    rcases hroom.mpr hnot.2 with hle | hle
    · omega
    · exact absurd hle.1 (not_le.mpr hnot.1)
  · intro hcond
    refine ⟨hcached, hanswer.trans hwaits.symm, hanswer.trans ?_⟩
    rw [hwrap, getMinimumSequence_eq hmin, le_min_iff]
    omega

omit [DecidableEq P] in
theorem checksAgree_view {s : State MultiThreadedStrategy P} {slowest : Int} :
    ChecksAgree longMax N s slowest ↔ ChecksAgree longMax N s.view slowest := by
  have hanswer : (hasAvailableCapacity longMax N s.view.strategy s.view.gating).2 =
      (hasAvailableCapacity longMax N s.strategy s.gating).2 :=
    congrArg Prod.snd (s.strategy.hasAvailableCapacity_view longMax N s.gating)
  have hwaits : waits longMax N s.view.strategy s.view.gating 1 =
      waits longMax N s.strategy s.gating 1 := by
    have hincrement : increment s.view.strategy 1 =
        ((increment s.strategy 1).1.view, (increment s.strategy 1).2) :=
      s.strategy.increment_view 1
    simp only [waits, hincrement, enters_view]
    rfl
  constructor
  · intro h
    exact ⟨h.cached, by rw [hanswer, hwaits]; exact h.returns, by rw [hanswer]; exact h.room⟩
  · intro h
    exact ⟨h.cached, by rw [← hanswer, ← hwaits]; exact h.returns, by rw [← hanswer]; exact h.room⟩

/-- With one publisher `HasAvailableCapacity` agrees with a claim, and with the gating sequences, if and
only if the slot that it looks for is within `LONG_MAX` or not released. The two strategies answer
alike. -/
theorem capacity_checks (model : DataModel) (hN : N ≤ 9223372036854775808) {gating : List Int}
    (hgating : ∀ g ∈ gating, -1 ≤ g) :
    (∀ s slowest, (machine SingleThreadedStrategy Unit model.longMax N gating).Reachable s →
      s.gating.min? = some slowest → lastClaimed s.strategy + 1 ≤ int64Max →
      (ChecksAgree model.longMax N s slowest ↔ lastClaimed s.strategy + 1 - N ≤ model.longMax ∨
        slowest < lastClaimed s.strategy + 1 - N)) ∧
    (∀ s slowest, (machine MultiThreadedStrategy Unit model.longMax N gating).Reachable s →
      s.gating.min? = some slowest → lastClaimed s.strategy + 1 ≤ int64Max →
      (ChecksAgree model.longMax N s slowest ↔ lastClaimed s.strategy + 1 - N ≤ model.longMax ∨
        slowest < lastClaimed s.strategy + 1 - N)) ∧
    ∀ as, ((machine SingleThreadedStrategy Unit model.longMax N gating).exec
        (machine SingleThreadedStrategy Unit model.longMax N gating).start as).map State.answers =
      ((machine MultiThreadedStrategy Unit model.longMax N gating).exec
        (machine MultiThreadedStrategy Unit model.longMax N gating).start as).map State.answers := by
  refine ⟨fun s slowest hs hmin hmax => ?_, fun s slowest hs hmin hmax => ?_, fun as => ?_⟩
  · exact (Inv.of_reachable model.neg_one_le_longMax hgating hs).checksAgree_iff hN hmax hmin
  · rw [checksAgree_view]
    exact (Inv.of_reachable model.neg_one_le_longMax hgating (reachable_view hs)).checksAgree_iff hN hmax hmin
  · have hrun := Machine.exec_map
      (N := machine SingleThreadedStrategy Unit model.longMax N gating)
      (M := machine MultiThreadedStrategy Unit model.longMax N gating) State.view (step_view model.longMax N)
      (machine MultiThreadedStrategy Unit model.longMax N gating).start as
    change ((machine SingleThreadedStrategy Unit model.longMax N gating).exec
      (State.view (machine MultiThreadedStrategy Unit model.longMax N gating).start) as).map _ = _
    rw [hrun, Option.map_map]
    rfl

/-- The run of the test, in a ring of eight slots. -/
theorem capacity_checks_eight : ∃ s : State SingleThreadedStrategy Unit,
    (machine SingleThreadedStrategy Unit DataModel.lp64.longMax 8 [-1]).exec
      (machine SingleThreadedStrategy Unit DataModel.lp64.longMax 8 [-1]).start
      [.incrementAndGet () 8, .hasAvailableCapacity (), .advance 0 0, .hasAvailableCapacity ()] =
        some s ∧
    s.answers = [((), .claimed 7), ((), .hasAvailableCapacity false),
      ((), .hasAvailableCapacity true)] ∧
    ChecksAgree DataModel.lp64.longMax 8 s 0 := by
  obtain ⟨s, hs, hanswers, hmin, hclaimed⟩ : ∃ s : State SingleThreadedStrategy Unit,
      (machine SingleThreadedStrategy Unit DataModel.lp64.longMax 8 [-1]).exec
        (machine SingleThreadedStrategy Unit DataModel.lp64.longMax 8 [-1]).start
        [.incrementAndGet () 8, .hasAvailableCapacity (), .advance 0 0, .hasAvailableCapacity ()] =
          some s ∧
      s.answers = [((), .claimed 7), ((), .hasAvailableCapacity false),
        ((), .hasAvailableCapacity true)] ∧
      s.gating.min? = some 0 ∧ lastClaimed s.strategy = 7 := ⟨_, rfl, rfl, rfl, rfl⟩
  have hgating : ∀ g ∈ ([-1] : List Int), -1 ≤ g := by decide
  have hmax : lastClaimed s.strategy + 1 ≤ int64Max := by
    rw [hclaimed]
    decide
  obtain ⟨hchecks, -, -⟩ := capacity_checks (N := 8) .lp64 (by decide) hgating
  refine ⟨s, hs, hanswers, (hchecks s 0 (Machine.reachable_of_exec hs) hmin hmax).mpr ?_⟩
  rw [hclaimed]
  exact .inl (by decide)

/-- Two full rings of 2^31 slots are claimed and consumed; the third one is said not to be free. -/
def twoRings : List (Action Unit) :=
  [.incrementAndGet () 2147483648, .advance 0 2147483647, .incrementAndGet () 2147483648, .poll (),
    .advance 0 4294967295]

/-- With a `long` of 32 bits an empty ring looks full. -/
theorem capacity_checks_beyond_long_max : ∃ s : State SingleThreadedStrategy Unit,
    (machine SingleThreadedStrategy Unit DataModel.llp64.longMax 2147483648 [-1]).Reachable s ∧
    s.gating.min? = some 4294967295 ∧ lastClaimed s.strategy = 4294967295 ∧
    (hasAvailableCapacity DataModel.llp64.longMax 2147483648 s.strategy s.gating).2 = false ∧
    ¬ ChecksAgree DataModel.llp64.longMax 2147483648 s 4294967295 := by
  obtain ⟨s, hs, hmin, hclaimed, hanswer⟩ : ∃ s : State SingleThreadedStrategy Unit,
      (machine SingleThreadedStrategy Unit DataModel.llp64.longMax 2147483648 [-1]).exec
        (machine SingleThreadedStrategy Unit DataModel.llp64.longMax 2147483648 [-1]).start
        twoRings = some s ∧
      s.gating.min? = some 4294967295 ∧ lastClaimed s.strategy = 4294967295 ∧
      (hasAvailableCapacity DataModel.llp64.longMax 2147483648 s.strategy s.gating).2 = false :=
    ⟨_, rfl, rfl, rfl, rfl⟩
  refine ⟨s, Machine.reachable_of_exec hs, hmin, hclaimed, hanswer, fun h => ?_⟩
  have hroom := h.room
  rw [hanswer, hclaimed] at hroom
  exact Bool.false_ne_true (hroom.mpr (by decide))

end ClaimStrategy

end Dumbo.Disruptor
