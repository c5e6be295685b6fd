import Dumbo.Fiber.Promise
import Mathlib.Logic.Equiv.Basic

/-!
# What holds of promises and futures
-/

namespace Dumbo.Fiber

open Transition Monitored

namespace SharedState

variable {V E : Type*} {d : SharedState V E}

/-- The call has made the state ready. -/
def Result.satisfies : Result V E → Bool
  | .satisfied _ => true
  | _ => false

theorem leave_satisfies (w : WaitKind) (ready : Bool) (d : SharedState V E) :
    (methods.leave w ready d).2.satisfies = false := by
  cases w with
  | wait _ | getExceptionPtr => rfl
  | get moves =>
    simp only [methods, get]
    split
    · rfl
    · split
      · split_ifs <;> rfl
      · rfl

theorem leave_ready (w : WaitKind) (d : SharedState V E) :
    (methods.leave w true d).2 ≠ .status false := by
  cases w with
  | wait _ | getExceptionPtr => simp [methods]
  | get moves =>
    simp only [methods, get]
    split
    · simp
    · split
      · split_ifs <;> simp
      · simp

theorem leave_moved (w : WaitKind) (ready : Bool) (d : SharedState V E)
    (hm : (methods.leave w ready d).1.moved = true) : d.moved = true ∨ w = .get true := by
  cases w with
  | wait _ | getExceptionPtr => exact .inl hm
  | get moves =>
    simp only [methods, get] at hm
    split at hm
    · exact .inl hm
    · split at hm
      · split_ifs at hm with hmoved
        · exact .inl hmoved
        · obtain rfl : moves = true := hm
          exact .inr rfl
      · exact .inl hm

theorem enter_moved (a : Call V E) (d : SharedState V E) : (methods.enter a d).1.moved = d.moved := by
  cases a with
  | setValue value | runValue value =>
    simp only [methods, runValue, setValue]
    split_ifs <;> rfl
  | setException except =>
    simp only [methods, setException]
    split_ifs <;> rfl
  | ownerDestroyed =>
    simp only [methods, ownerDestroyed, setException]
    split_ifs <;> rfl
  | wait w => rfl

theorem enter_waits_eq {a : Call V E} {w : WaitKind} (hout : (methods.enter a d).2 = .waits w) :
    a = .wait w := by
  cases hd : d.ready with
  | true =>
    rw [(enter_ready hd a).2] at hout
    cases a with
    | wait k => exact congrArg Call.wait (Outcome.waits.inj hout)
    | setValue _ | setException _ | runValue _ | ownerDestroyed => exact absurd hout (by simp)
  | false =>
    cases a with
    | wait k => exact congrArg Call.wait (Outcome.waits.inj hout)
    | setValue _ | setException _ | runValue _ | ownerDestroyed =>
      simp [methods, setValue, runValue, setException, ownerDestroyed, markReady, hd] at hout

theorem enter_calls_eq {a b : Call V E} (hout : (methods.enter a d).2 = .calls b) :
    b = .setException .promiseAlreadySatisfied := by
  cases a with
  | runValue value =>
    cases hd : d.ready with
    | true =>
      rw [(enter_ready hd _).2] at hout
      exact (Outcome.calls.inj hout).symm
    | false => simp [methods, runValue, setValue, markReady, hd] at hout
  | wait _ => exact absurd hout (by simp [methods])
  | setValue _ | setException _ | ownerDestroyed =>
    cases hd : d.ready <;>
      simp [methods, setValue, setException, ownerDestroyed, markReady, hd] at hout

end SharedState

namespace Promise

open SharedState

variable {F P H V E : Type*}

/-! ### The shared states -/

structure CoreInv [DecidableEq F] (c : Core F V E) : Prop where
  sync : Monitored.Inv methods c
  justified : Justified methods Good (fun _ _ => True) (fun _ d => d.ready = false) c
  agrees : ∀ r ∈ c.returned, Agrees (c.data r.object).outcome r.result
  /-- one call has made a state ready, or none -/
  first : ∀ i, (c.returned.filter fun r => r.object = i && r.result.satisfies).length =
    if (c.data i).ready then 1 else 0

variable [DecidableEq F] {c c' : Core F V E} {f : F} {i : Nat} {a : Call V E} {w : WaitKind}

theorem CoreInv.good (h : CoreInv c) (i : Nat) : Good (c.data i) := h.justified.data i

theorem CoreInv.initial (clock : Nat) :
    CoreInv (.initial (fun _ => .create) clock : Core F V E) :=
  ⟨.initial _ clock, .initial (fun _ => Good.create) clock, fun _ hr => absurd hr List.not_mem_nil,
    fun _ => rfl⟩

theorem CoreInv.call (h : CoreInv c) (htask : c.task f = .idle) (i : Nat) (a : Call V E) :
    CoreInv (c.call f i a) :=
  ⟨h.sync.call htask i a, h.justified.call i a, h.agrees, h.first⟩

/-- A call finds the state ready and leaves it alone, or makes it ready, or begins to wait. -/
theorem CoreInv.enter_cases (h : CoreInv c) (f : F) (i : Nat) (a : Call V E) :
    (c.data i).ready = true ∧ (c.enter methods f i a).data = c.data ∧
        ((c.enter methods f i a).returned = c.returned ∨
          ∃ r : Result V E, Agrees (c.data i).outcome r ∧ r.satisfies = false ∧
            (c.enter methods f i a).returned = ⟨f, i, r⟩ :: c.returned) ∨
      (c.data i).ready = false ∧
        ((c.enter methods f i a).data = c.data ∧ (c.enter methods f i a).returned = c.returned ∧
            a.sets = none ∨
          ∃ d x, a.sets = some x ∧ d.ready = true ∧ d.outcome = some x ∧
            (c.enter methods f i a).data = Function.update c.data i d ∧
            (c.enter methods f i a).returned = ⟨f, i, .satisfied x⟩ :: c.returned) := by
  have hdata := enter_data (m := methods) c f i a
  cases hd : (c.data i).ready with
  | true =>
    left
    obtain ⟨hsame, hout⟩ := enter_ready hd a
    have hfull := (h.good i).full hd
    rw [hsame, Function.update_eq_self] at hdata
    refine ⟨rfl, hdata, ?_⟩
    cases a with
    | setValue value => exact .inr ⟨.alreadySatisfied, hfull, rfl, (enter_returns hout).2⟩
    | setException except => exact .inr ⟨.alreadySatisfied, hfull, rfl, (enter_returns hout).2⟩
    | runValue value => exact .inl (enter_calls hout).2
    | ownerDestroyed => exact .inr ⟨.unaffected, hfull, rfl, (enter_returns hout).2⟩
    | wait w => exact .inl (enter_begins hout).2
  | false =>
    right
    refine ⟨rfl, ?_⟩
    rcases enter_not_ready (h.good i) hd a with ⟨x, hx, hout, hready, houtcome⟩ | ⟨w, rfl, he⟩
    · exact .inr ⟨_, x, hx, hready, houtcome, hdata, (enter_returns hout).2⟩
    · rw [he, Function.update_eq_self] at hdata
      exact .inl ⟨hdata, (enter_begins (congrArg Prod.snd he)).2, rfl⟩

theorem CoreInv.enter (h : CoreInv c) (htask : c.task f = .enters i a) (hidle : c.cv.idle f = true) :
    CoreInv (c.enter methods f i a) := by
  refine ⟨h.sync.enter htask hidle, h.justified.enter laws h.sync htask hidle, ?_, fun j => ?_⟩
  · rcases h.enter_cases f i a with ⟨hd, hdata, hret | ⟨r, hr, _, hret⟩⟩ |
      ⟨hd, ⟨hdata, hret, _⟩ | ⟨d, x, _, _, houtcome, hdata, hret⟩⟩
    · rw [hdata, hret]
      exact h.agrees
    · rw [hdata, hret, List.forall_mem_cons]
      exact ⟨hr, h.agrees⟩
    · rw [hdata, hret]
      exact h.agrees
    · rw [hdata, hret, List.forall_mem_cons, Function.update_self]
      refine ⟨houtcome, fun r hr => (h.agrees r hr).mono fun y hy => ?_⟩
      by_cases hi : r.object = i
      · rw [hi, (h.good i).empty hd] at hy
        exact absurd hy (by simp [outcome, create])
      · rw [Function.update_of_ne hi]
        exact hy
  · have hfirst := h.first j
    rcases h.enter_cases f i a with ⟨hd, hdata, hret | ⟨r, _, hsat, hret⟩⟩ |
      ⟨hd, ⟨hdata, hret, _⟩ | ⟨d, x, _, hready, _, hdata, hret⟩⟩
    · rw [hdata, hret]
      exact hfirst
    · rw [hdata, hret, List.filter_cons_of_neg (by simp [hsat])]
      exact hfirst
    · rw [hdata, hret]
      exact hfirst
    · rw [hdata, hret]
      by_cases hj : i = j
      · subst hj
        rw [hd] at hfirst
        rw [List.filter_cons_of_pos (by simp [Result.satisfies]), List.length_cons, hfirst,
          Function.update_self, hready]
        rfl
      · rw [List.filter_cons_of_neg (by simp [hj]), Function.update_of_ne (Ne.symm hj)]
        exact hfirst

theorem CoreInv.timed (h : CoreInv c) {k : WaitCall Nat Nat} (htask : c.task f = .waits i w)
    (hphase : c.cv.phase f = .pred k true) : ∃ timeoutTime, w = .wait timeoutTime := by
  obtain ⟨rfl, -, -⟩ := h.sync.checks htask hphase
  have htime := ((h.sync.sync.fibers f).pred hphase).2.2 rfl
  cases w with
  | wait timeoutTime => exact ⟨timeoutTime, rfl⟩
  | get _ | getExceptionPtr => exact absurd rfl htime

theorem CoreInv.check_agrees (h : CoreInv c) {k : WaitCall Nat Nat} {timeout : Bool}
    (htask : c.task f = .waits i w) (hphase : c.cv.phase f = .pred k timeout)
    (hvalue : ((c.data i).ready || timeout) = true)
    (hmoved : ∀ moves, w = .get moves → (c.data i).moved = false) :
    Agrees (c.data i).outcome (methods.leave w (c.data i).ready (c.data i)).2 := by
  cases hd : (c.data i).ready with
  | true => exact leave_agrees (h.good i) hd w hmoved
  | false =>
    rw [hd, Bool.false_or] at hvalue
    subst hvalue
    obtain ⟨timeoutTime, rfl⟩ := h.timed htask hphase
    trivial

theorem check_cases (c : Core F V E) (f : F) (i : Nat) (w : WaitKind) (timeout : Bool) :
    ((c.data i).ready || timeout) = false ∧ (c.check methods f i w timeout).data = c.data ∧
        (c.check methods f i w timeout).task = c.task ∧
        (c.check methods f i w timeout).returned = c.returned ∨
      ((c.data i).ready || timeout) = true ∧
        (∀ j, ((c.check methods f i w timeout).data j).ready = (c.data j).ready ∧
          ((c.check methods f i w timeout).data j).outcome = (c.data j).outcome) ∧
        (c.check methods f i w timeout).task = Function.update c.task f .idle ∧
        (c.check methods f i w timeout).returned =
          ⟨f, i, (methods.leave w (c.data i).ready (c.data i)).2⟩ :: c.returned := by
  cases hvalue : (c.data i).ready || timeout with
  | false =>
    left
    rw [Bool.or_eq_false_iff] at hvalue
    obtain ⟨hpred, rfl⟩ := hvalue
    rw [check_again (m := methods) (f := f) (l := w) hpred]
    exact ⟨rfl, rfl, rfl, rfl⟩
  | true =>
    right
    obtain ⟨hdata, htask, hret⟩ := check_ends (m := methods) (f := f) (l := w) hvalue
    refine ⟨rfl, fun j => ?_, htask, hret⟩
    rw [hdata]
    by_cases hj : j = i
    · subst hj
      rw [Function.update_self]
      exact leave_outcome w _ _
    · rw [Function.update_of_ne hj]
      exact ⟨rfl, rfl⟩

theorem CoreInv.check (h : CoreInv c) {k : WaitCall Nat Nat} {timeout : Bool}
    (htask : c.task f = .waits i w) (hphase : c.cv.phase f = .pred k timeout)
    (hmoved : ∀ moves, w = .get moves → (c.data i).moved = false) :
    CoreInv (c.check methods f i w timeout) := by
  refine ⟨h.sync.check htask hphase, h.justified.check laws h.sync htask hphase fun hp _ => hp, ?_,
    fun j => ?_⟩
  · rcases check_cases c f i w timeout with ⟨_, hdata, _, hret⟩ | ⟨hvalue, hdata, _, hret⟩
    · rw [hdata, hret]
      exact h.agrees
    · rw [hret, List.forall_mem_cons]
      refine ⟨?_, fun r hr => ?_⟩
      · rw [(hdata i).2]
        exact h.check_agrees htask hphase hvalue hmoved
      · rw [(hdata r.object).2]
        exact h.agrees r hr
  · rcases check_cases c f i w timeout with ⟨_, hdata, _, hret⟩ | ⟨_, hdata, _, hret⟩
    · rw [hdata, hret]
      exact h.first j
    · rw [hret, List.filter_cons_of_neg (by simp [leave_satisfies]), (hdata j).1]
      exact h.first j

/-! ### The objects that hold them -/

/-- The fiber is in `get`, of a `future` or of a `shared_future`. -/
def Gets (c : Core F V E) (f : F) (i : Nat) (moves : Bool) : Prop :=
  c.task f = .enters i (.wait (.get moves)) ∨ c.task f = .waits i (.get moves)

/-- Shared states that are referred to have been created. -/
structure RefsOk (s : State F P H V E) : Prop where
  tasks : ∀ f i, (s.core.task f).object = some i → i < s.next
  running : ∀ f, ∀ i ∈ s.running f, i < s.next
  new : ∀ i, s.next ≤ i → s.core.data i = .create

/-- The owners, where the state `lost` is about to be abandoned. -/
structure OwnersOk (s : State F P H V E) (lost : Option Nat) : Prop where
  inj : ∀ p q x y i, s.owners p = some x → s.owners q = some y → x.state = some i → y.state = some i →
    p = q
  lt : ∀ p x i, s.owners p = some x → x.state = some i → i < s.next
  obtained : ∀ p x i, s.owners p = some x → x.state = some i → (x.obtained = true ↔ i ∈ s.retrieved)
  once : s.retrieved.Nodup
  retrieved : ∀ i ∈ s.retrieved, i < s.next
  /-- a state that has lost its owner is ready, or about to be so -/
  held : ∀ i < s.next, lost ≠ some i → (∃ p x, s.owners p = some x ∧ x.state = some i) ∨
    (s.core.data i).ready = true ∨ ∃ f, s.core.task f = .enters i .ownerDestroyed

structure FuturesOk (s : State F P H V E) : Prop where
  fresh : ∀ i, i ∉ s.retrieved → s.stage i = .fresh
  unique : ∀ h i, s.futures h = some ⟨false, some i⟩ → s.stage i = .unique h
  shared : ∀ h i, s.futures h = some ⟨true, some i⟩ → s.stage i = .shared
  gets : ∀ f i, Gets s.core f i true → s.stage i = .taken f ∧ (s.core.data i).moved = false
  sharedGets : ∀ f i, Gets s.core f i false → s.stage i = .shared
  moved : ∀ i, (s.core.data i).moved = true → ∃ f, s.stage i = .taken f

structure InvBut (lost : Option Nat) (s : State F P H V E) : Prop where
  core : CoreInv s.core
  refs : RefsOk s
  owners : OwnersOk s lost
  futures : FuturesOk s

abbrev Inv (s : State F P H V E) : Prop := InvBut none s

variable {s t : State F P H V E} {lost : Option Nat}

theorem Inv.initial (clock : Nat) : Inv (.initial clock : State F P H V E) := by
  refine ⟨.initial clock, ⟨fun _ _ h => absurd h (by simp [State.initial, Monitored.State.initial,
    Task.object]), fun _ _ h => absurd h List.not_mem_nil, fun _ _ => rfl⟩, ⟨?_, ?_, ?_, ?_, ?_, ?_⟩,
    ⟨?_, ?_, ?_, ?_, ?_, ?_⟩⟩
  all_goals simp [State.initial, Monitored.State.initial, Gets, create]

/-! ### A call begins -/

theorem InvBut.call (h : InvBut lost s) (hfree : s.core.task f = .idle) (hi : i < s.next)
    (hget : ∀ moves, a = .wait (.get moves) →
      (moves = true → s.stage i = .taken f ∧ (s.core.data i).moved = false) ∧
      (moves = false → s.stage i = .shared))
    (hlost : ∀ j, lost = some j → i = j ∧ a = .ownerDestroyed) : Inv (s.call f i a) := by
  have hself : (s.call f i a).core.task f = .enters i a := Function.update_self _ _ _
  have hothers : ∀ g, g ≠ f → (s.call f i a).core.task g = s.core.task g := fun g hg =>
    Function.update_of_ne hg _ _
  have hgets : ∀ g j moves, Gets (s.call f i a).core g j moves →
      Gets s.core g j moves ∨ g = f ∧ j = i ∧ a = .wait (.get moves) := by
    intro g j moves hg
    by_cases hgf : g = f
    · subst hgf
      rw [Gets, hself] at hg
      simp only [Task.enters.injEq, reduceCtorEq, or_false] at hg
      exact .inr ⟨rfl, hg.1.symm, hg.2⟩
    · rw [Gets, hothers g hgf] at hg
      exact .inl hg
  refine ⟨h.core.call hfree i a, ⟨fun g j hj => ?_, h.refs.running, h.refs.new⟩,
    ⟨h.owners.inj, h.owners.lt, h.owners.obtained, h.owners.once, h.owners.retrieved, fun j hj _ => ?_⟩,
    ⟨h.futures.fresh, h.futures.unique, h.futures.shared, fun g j hg => ?_, fun g j hg => ?_,
      h.futures.moved⟩⟩
  · by_cases hg : g = f
    · subst hg
      rw [hself] at hj
      obtain rfl : i = j := Option.some.inj hj
      exact hi
    · rw [hothers g hg] at hj
      exact h.refs.tasks g j hj
  · by_cases hj' : lost = some j
    · obtain ⟨rfl, rfl⟩ := hlost j hj'
      exact .inr (.inr ⟨f, hself⟩)
    refine (h.owners.held j hj hj').imp id (Or.imp id fun ⟨g, hg⟩ => ⟨g, ?_⟩)
    have hgf : g ≠ f := by
      rintro rfl
      exact absurd (hfree.symm.trans hg) (by simp)
    rw [hothers g hgf]
    exact hg
  · rcases hgets g j true hg with hg | ⟨rfl, rfl, ha⟩
    · exact h.futures.gets g j hg
    · exact (hget true ha).1 rfl
  · rcases hgets g j false hg with hg | ⟨rfl, rfl, ha⟩
    · exact h.futures.sharedGets g j hg
    · exact (hget false ha).2 rfl

theorem InvBut.abandon {x : Owner} (h : InvBut x.state s) (hfree : s.core.task f = .idle)
    (hlt : ∀ i, x.state = some i → i < s.next) : Inv (s.abandon f x) := by
  obtain ⟨kind, obtained, state⟩ := x
  cases state with
  | none => exact h
  | some i =>
    exact h.call hfree (hlt i rfl) (fun _ ha => absurd ha (by simp)) fun j hj =>
      ⟨Option.some.inj hj, rfl⟩

theorem Inv.throws (h : Inv s) (f : F) (e : Exception E) : Inv (s.throws f e) :=
  ⟨h.core, ⟨h.refs.tasks, h.refs.running, h.refs.new⟩,
    ⟨h.owners.inj, h.owners.lt, h.owners.obtained, h.owners.once, h.owners.retrieved, h.owners.held⟩,
    ⟨h.futures.fresh, h.futures.unique, h.futures.shared, h.futures.gets, h.futures.sharedGets,
      h.futures.moved⟩⟩

theorem Inv.callOr (h : Inv s) (hfree : s.core.task f = .idle) {state : Option Nat} {e : Exception E}
    (hlt : ∀ i, state = some i → i < s.next) (ha : ∀ moves, a ≠ .wait (.get moves)) :
    Inv (s.callOr f state a e) := by
  cases state with
  | none => exact h.throws f e
  | some i =>
    exact InvBut.call h hfree (hlt i rfl) (fun moves he => absurd he (ha moves)) fun _ hj =>
      absurd hj (by simp)

theorem Inv.future_lt (h : Inv s) {g : H} {y : Future} (hg : s.futures g = some y)
    (hi : y.state = some i) : i < s.next := by
  by_contra hnot
  have hfresh := h.futures.fresh i fun hmem => hnot (h.owners.retrieved i hmem)
  obtain ⟨shared, state⟩ := y
  obtain rfl : state = some i := hi
  cases shared with
  | false => exact absurd (hfresh.symm.trans (h.futures.unique g i hg)) (by simp)
  | true => exact absurd (hfresh.symm.trans (h.futures.shared g i hg)) (by simp)

/-! ### Owners -/

theorem InvBut.owners_change (h : Inv s) (hcore : t.core = s.core) (hrunning : t.running = s.running)
    (hretrieved : t.retrieved = s.retrieved) (hfutures : t.futures = s.futures)
    (hstage : t.stage = s.stage) (hnext : s.next ≤ t.next)
    (hinj : ∀ p q x y i, t.owners p = some x → t.owners q = some y → x.state = some i →
      y.state = some i → p = q)
    (hlt : ∀ p x i, t.owners p = some x → x.state = some i → i < t.next)
    (hobtained : ∀ p x i, t.owners p = some x → x.state = some i → (x.obtained = true ↔ i ∈ s.retrieved))
    (hheld : ∀ i < t.next, lost ≠ some i → (∃ p x, t.owners p = some x ∧ x.state = some i) ∨
      (s.core.data i).ready = true ∨ ∃ f, s.core.task f = .enters i .ownerDestroyed) :
    InvBut lost t := by
  refine ⟨hcore ▸ h.core, ⟨?_, ?_, ?_⟩, ⟨hinj, hlt, ?_, ?_, ?_, ?_⟩, ⟨?_, ?_, ?_, ?_, ?_, ?_⟩⟩
  · rw [hcore]
    exact fun g i hi => Nat.lt_of_lt_of_le (h.refs.tasks g i hi) hnext
  · rw [hrunning]
    exact fun g i hi => Nat.lt_of_lt_of_le (h.refs.running g i hi) hnext
  · rw [hcore]
    exact fun i hi => h.refs.new i (Nat.le_trans hnext hi)
  · rw [hretrieved]
    exact hobtained
  · rw [hretrieved]
    exact h.owners.once
  · rw [hretrieved]
    exact fun i hi => Nat.lt_of_lt_of_le (h.owners.retrieved i hi) hnext
  · rw [hcore]
    exact hheld
  · rw [hretrieved, hstage]
    exact h.futures.fresh
  · rw [hfutures, hstage]
    exact h.futures.unique
  · rw [hfutures, hstage]
    exact h.futures.shared
  · rw [hcore, hstage]
    exact h.futures.gets
  · rw [hcore, hstage]
    exact h.futures.sharedGets
  · rw [hcore, hstage]
    exact h.futures.moved

theorem InvBut.relocate (h : Inv s) (move : P → P) (hcore : t.core = s.core)
    (hrunning : t.running = s.running) (hretrieved : t.retrieved = s.retrieved)
    (hfutures : t.futures = s.futures) (hstage : t.stage = s.stage) (hnext : t.next = s.next)
    (hfrom : ∀ p x i, t.owners p = some x → x.state = some i →
      ∃ q y, s.owners q = some y ∧ y.state = some i ∧ y.obtained = x.obtained ∧ move q = p)
    (hto : ∀ q y i, s.owners q = some y → y.state = some i → lost ≠ some i →
      ∃ p x, t.owners p = some x ∧ x.state = some i) : InvBut lost t := by
  refine h.owners_change hcore hrunning hretrieved hfutures hstage (Nat.le_of_eq hnext.symm) ?_ ?_ ?_ ?_
  · intro p p' x x' i hp hp' hx hx'
    obtain ⟨q, y, hq, hy, _, rfl⟩ := hfrom p x i hp hx
    obtain ⟨q', y', hq', hy', _, rfl⟩ := hfrom p' x' i hp' hx'
    exact congrArg move (h.owners.inj q q' y y' i hq hq' hy hy')
  · intro p x i hp hx
    obtain ⟨q, y, hq, hy, _⟩ := hfrom p x i hp hx
    exact hnext ▸ h.owners.lt q y i hq hy
  · intro p x i hp hx
    obtain ⟨q, y, hq, hy, hobtained, _⟩ := hfrom p x i hp hx
    exact hobtained ▸ h.owners.obtained q y i hq hy
  · intro i hi hlost
    refine (h.owners.held i (hnext ▸ hi) (by simp)).imp (fun ⟨q, y, hq, hy⟩ => ?_) id
    exact hto q y i hq hy hlost

variable [DecidableEq P] {p q : P} {x y : Owner}

omit [DecidableEq F] in
theorem State.setOwner_self (s : State F P H V E) (p : P) (x : Option Owner) :
    (s.setOwner p x).owners p = x := Function.update_self _ _ _

omit [DecidableEq F] in
theorem State.setOwner_of_ne (s : State F P H V E) (x : Option Owner) {r : P} (hr : r ≠ p) :
    (s.setOwner p x).owners r = s.owners r := Function.update_of_ne hr _ _

theorem InvBut.create (h : Inv s) (kind : Kind) {state : Option Nat}
    (hp : ∀ x, s.owners p = some x → x.state = state) : InvBut state (s.create p kind) := by
  have hself : (s.create p kind).owners p = some ⟨kind, false, some s.next⟩ := Function.update_self _ _ _
  have hothers : ∀ r, r ≠ p → (s.create p kind).owners r = s.owners r := fun r hr =>
    Function.update_of_ne hr _ _
  have hold : ∀ r x i, (s.create p kind).owners r = some x → x.state = some i →
      r = p ∧ i = s.next ∧ x.obtained = false ∨ r ≠ p ∧ s.owners r = some x ∧ i < s.next := by
    intro r x i hr hx
    by_cases hrp : r = p
    · subst hrp
      rw [hself, Option.some.injEq] at hr
      subst hr
      exact .inl ⟨rfl, (Option.some.inj hx).symm, rfl⟩
    · rw [hothers r hrp] at hr
      exact .inr ⟨hrp, hr, h.owners.lt r x i hr hx⟩
  refine h.owners_change rfl rfl rfl rfl rfl (Nat.le_succ _) ?_ ?_ ?_ ?_
  · intro r r' x x' i hr hr' hx hx'
    rcases hold r x i hr hx with ⟨rfl, rfl, _⟩ | ⟨_, hr, hi⟩
    · rcases hold r' x' _ hr' hx' with ⟨rfl, _, _⟩ | ⟨_, _, hi⟩
      · rfl
      · exact absurd hi (Nat.lt_irrefl _)
    · rcases hold r' x' i hr' hx' with ⟨_, rfl, _⟩ | ⟨_, hr', _⟩
      · exact absurd hi (Nat.lt_irrefl _)
      · exact h.owners.inj r r' x x' i hr hr' hx hx'
  · intro r x i hr hx
    rcases hold r x i hr hx with ⟨_, rfl, _⟩ | ⟨_, _, hi⟩
    · exact Nat.lt_succ_self _
    · exact Nat.lt_succ_of_lt hi
  · intro r x i hr hx
    rcases hold r x i hr hx with ⟨_, rfl, hobtained⟩ | ⟨_, hr, _⟩
    · rw [hobtained]
      exact ⟨fun he => absurd he Bool.false_ne_true, fun hmem =>
        absurd (h.owners.retrieved _ hmem) (Nat.lt_irrefl _)⟩
    · exact h.owners.obtained r x i hr hx
  · intro i hi hlost
    rcases Nat.lt_succ_iff_lt_or_eq.mp hi with hi | rfl
    · refine (h.owners.held i hi (by simp)).imp (fun ⟨r, x, hr, hx⟩ => ?_) id
      have hrp : r ≠ p := by
        rintro rfl
        exact hlost ((hp x hr).symm.trans hx)
      exact ⟨r, x, by rw [hothers r hrp]; exact hr, hx⟩
    · exact .inl ⟨p, _, hself, rfl⟩

theorem InvBut.setOwner (h : Inv s) {state : Option Nat} (hp : ∀ x, s.owners p = some x → x.state = state)
    {x : Option Owner} (hx : ∀ y, x = some y → y.state = none) : InvBut state (s.setOwner p x) := by
  refine h.relocate id rfl rfl rfl rfl rfl rfl (fun r y i hr hy => ?_) fun r y i hr hy hlost => ?_
  · by_cases hrp : r = p
    · subst hrp
      rw [State.setOwner_self] at hr
      exact absurd ((hx y hr).symm.trans hy) (by simp)
    · rw [State.setOwner_of_ne s x hrp] at hr
      exact ⟨r, y, hr, hy, rfl, rfl⟩
  · have hrp : r ≠ p := by
      rintro rfl
      exact hlost ((hp y hr).symm.trans hy)
    exact ⟨r, y, by rw [State.setOwner_of_ne s x hrp]; exact hr, hy⟩

theorem InvBut.move (h : Inv s) {state : Option Nat} (hpq : p ≠ q)
    (hp : ∀ x, s.owners p = some x → x.state = state) (hq : s.owners q = some y) :
    InvBut state ((s.setOwner p (some y)).setOwner q (some ⟨y.kind, false, none⟩)) := by
  have hp' : ((s.setOwner p (some y)).setOwner q (some ⟨y.kind, false, none⟩)).owners p = some y := by
    rw [State.setOwner_of_ne _ _ hpq, State.setOwner_self]
  have hq' := (s.setOwner p (some y)).setOwner_self q (some ⟨y.kind, false, none⟩)
  have hothers : ∀ r, r ≠ p → r ≠ q →
      ((s.setOwner p (some y)).setOwner q (some ⟨y.kind, false, none⟩)).owners r = s.owners r :=
    fun r hrp hrq => by rw [State.setOwner_of_ne _ _ hrq, State.setOwner_of_ne _ _ hrp]
  refine h.relocate (fun r => if r = q then p else r) rfl rfl rfl rfl rfl rfl (fun r z i hr hz => ?_)
    fun r z i hr hz hlost => ?_
  · by_cases hrp : r = p
    · subst hrp
      rw [hp', Option.some.injEq] at hr
      exact ⟨q, y, hq, hr ▸ hz, by rw [hr], if_pos rfl⟩
    · by_cases hrq : r = q
      · subst hrq
        rw [hq', Option.some.injEq] at hr
        exact absurd (hr ▸ hz) (by simp)
      · rw [hothers r hrp hrq] at hr
        exact ⟨r, z, hr, hz, rfl, if_neg hrq⟩
  · have hrp : r ≠ p := by
      rintro rfl
      exact hlost ((hp z hr).symm.trans hz)
    by_cases hrq : r = q
    · subst hrq
      obtain rfl : y = z := Option.some.inj (hq.symm.trans hr)
      exact ⟨p, y, hp', hz⟩
    · exact ⟨r, z, by rw [hothers r hrp hrq]; exact hr, hz⟩

theorem Inv.swap (h : Inv s) (hp : s.owners p = some x) (hq : s.owners q = some y) :
    Inv (s.swap p q x y) := by
  have hq' : (s.swap p q x y).owners q = some x := State.setOwner_self _ _ _
  have hp' : (s.swap p q x y).owners p = some y := by
    by_cases hpq : p = q
    · subst hpq
      rw [hq', ← hp, hq]
    · rw [State.swap, State.setOwner_of_ne _ _ hpq, State.setOwner_self]
  have hothers : ∀ r, r ≠ p → r ≠ q → (s.swap p q x y).owners r = s.owners r :=
    fun r hrp hrq => by rw [State.swap, State.setOwner_of_ne _ _ hrq, State.setOwner_of_ne _ _ hrp]
  refine InvBut.relocate h (Equiv.swap p q) rfl rfl rfl rfl rfl rfl (fun r z i hr hz => ?_)
    fun r z i hr hz _ => ?_
  · by_cases hrp : r = p
    · subst hrp
      rw [hp', Option.some.injEq] at hr
      exact ⟨q, y, hq, hr ▸ hz, by rw [hr], Equiv.swap_apply_right _ _⟩
    · by_cases hrq : r = q
      · subst hrq
        rw [hq', Option.some.injEq] at hr
        exact ⟨p, x, hp, hr ▸ hz, by rw [hr], Equiv.swap_apply_left _ _⟩
      · rw [hothers r hrp hrq] at hr
        exact ⟨r, z, hr, hz, rfl, Equiv.swap_apply_of_ne_of_ne hrp hrq⟩
  · by_cases hrp : r = p
    · subst hrp
      obtain rfl : x = z := Option.some.inj (hp.symm.trans hr)
      exact ⟨q, x, hq', hz⟩
    · by_cases hrq : r = q
      · subst hrq
        obtain rfl : y = z := Option.some.inj (hq.symm.trans hr)
        exact ⟨p, y, hp', hz⟩
      · exact ⟨r, z, by rw [hothers r hrp hrq]; exact hr, hz⟩

/-! ### Futures -/

variable [DecidableEq H] {g h : H} {z : Future}

omit [DecidableEq F] [DecidableEq P] in
theorem State.setFuture_self (s : State F P H V E) (h : H) (x : Option Future) :
    (s.setFuture h x).futures h = x := Function.update_self _ _ _

omit [DecidableEq F] [DecidableEq P] in
theorem State.setFuture_of_ne (s : State F P H V E) (x : Option Future) {r : H} (hr : r ≠ h) :
    (s.setFuture h x).futures r = s.futures r := Function.update_of_ne hr _ _

omit [DecidableEq P] in
theorem Inv.setFuture (hs : Inv s) {x : Option Future}
    (hx : ∀ z i, x = some z → z.state = some i → z.shared = true ∧ s.stage i = .shared) :
    Inv (s.setFuture h x) := by
  have hnew : ∀ r z i, (s.setFuture h x).futures r = some z → z.state = some i →
      s.futures r = some z ∨ z.shared = true ∧ s.stage i = .shared := by
    intro r z i hr hz
    by_cases hrh : r = h
    · subst hrh
      rw [State.setFuture_self] at hr
      exact .inr (hx z i hr hz)
    · rw [State.setFuture_of_ne s x hrh] at hr
      exact .inl hr
  refine ⟨hs.core, ⟨hs.refs.tasks, hs.refs.running, hs.refs.new⟩,
    ⟨hs.owners.inj, hs.owners.lt, hs.owners.obtained, hs.owners.once, hs.owners.retrieved,
      hs.owners.held⟩,
    ⟨hs.futures.fresh, fun r i hr => ?_, fun r i hr => ?_, hs.futures.gets, hs.futures.sharedGets,
      hs.futures.moved⟩⟩
  · rcases hnew r _ i hr rfl with hold | ⟨hshared, _⟩
    · exact hs.futures.unique r i hold
    · exact absurd hshared Bool.false_ne_true
  · rcases hnew r _ i hr rfl with hold | ⟨_, hstage⟩
    · exact hs.futures.shared r i hold
    · exact hstage

omit [DecidableEq P] [DecidableEq H] in
theorem Inv.restage (hs : Inv s) {i : Nat} (hg : s.futures g = some ⟨false, some i⟩)
    {futures : H → Option Future} {stage : Stage F H}
    (hmine : ∀ r z, futures r = some z → z.state = some i →
      stage = if z.shared then .shared else .unique r)
    (hothers : ∀ r z j, futures r = some z → z.state = some j → j ≠ i → s.futures r = some z) :
    Inv { s with futures := futures, stage := Function.update s.stage i stage } := by
  have hstage := hs.futures.unique g i hg
  have hself : ∀ st : Stage F H, Function.update s.stage i st i = st := fun st =>
    Function.update_self _ _ _
  have hkept : ∀ st : Stage F H, ∀ j, j ≠ i → Function.update s.stage i st j = s.stage j :=
    fun st j hj => Function.update_of_ne hj _ _
  refine ⟨hs.core, ⟨hs.refs.tasks, hs.refs.running, hs.refs.new⟩,
    ⟨hs.owners.inj, hs.owners.lt, hs.owners.obtained, hs.owners.once, hs.owners.retrieved,
      hs.owners.held⟩, ⟨fun j hj => ?_, fun r j hr => ?_, fun r j hr => ?_, fun f j hf => ?_,
      fun f j hf => ?_, fun j hj => ?_⟩⟩
  · by_cases hji : j = i
    · subst hji
      exact absurd (hstage.symm.trans (hs.futures.fresh j hj)) (by simp)
    · exact (hkept _ j hji).trans (hs.futures.fresh j hj)
  · by_cases hji : j = i
    · subst hji
      exact (hself _).trans (hmine r _ hr rfl)
    · exact (hkept _ j hji).trans (hs.futures.unique r j (hothers r _ j hr rfl hji))
  · by_cases hji : j = i
    · subst hji
      exact (hself _).trans (hmine r _ hr rfl)
    · exact (hkept _ j hji).trans (hs.futures.shared r j (hothers r _ j hr rfl hji))
  · have hold := hs.futures.gets f j hf
    have hji : j ≠ i := by
      rintro rfl
      exact absurd (hstage.symm.trans hold.1) (by simp)
    exact ⟨(hkept _ j hji).trans hold.1, hold.2⟩
  · have hold := hs.futures.sharedGets f j hf
    have hji : j ≠ i := by
      rintro rfl
      exact absurd (hstage.symm.trans hold) (by simp)
    exact (hkept _ j hji).trans hold
  · obtain ⟨f, hf⟩ := hs.futures.moved j hj
    have hji : j ≠ i := by
      rintro rfl
      exact absurd (hstage.symm.trans hf) (by simp)
    exact ⟨f, (hkept _ j hji).trans hf⟩

omit [DecidableEq P] in
theorem Inv.moveFuture (hs : Inv s) (hgh : h ≠ g) {shared : Bool} (hg : s.futures g = some z)
    (hkind : (shared || !z.shared) = true) : Inv (s.moveFuture h g shared z) := by
  obtain ⟨unique, state⟩ := z
  cases state with
  | none =>
    refine Inv.setFuture (Inv.setFuture hs fun z i hz hi => ?_) fun z i hz hi => ?_
    · obtain rfl := Option.some.inj hz
      exact absurd hi (by simp)
    · obtain rfl := Option.some.inj hz
      exact absurd hi (by simp)
  | some i =>
    cases unique with
    | true =>
      obtain rfl : shared = true := by simpa using hkind
      have hstage := hs.futures.shared g i hg
      have hmoved : Inv ((s.setFuture h (some ⟨true, some i⟩)).setFuture g (some ⟨true, none⟩)) := by
        refine Inv.setFuture (Inv.setFuture hs fun z j hz hj => ?_) fun z j hz hj => ?_
        · obtain rfl := Option.some.inj hz
          obtain rfl := Option.some.inj hj
          exact ⟨rfl, hstage⟩
        · obtain rfl := Option.some.inj hz
          exact absurd hj (by simp)
      have hsame : Function.update s.stage i .shared = s.stage := by
        rw [← hstage, Function.update_eq_self]
      rw [State.moveFuture, State.refers]
      simp only [if_true]
      rw [show ((s.setFuture h (some ⟨true, some i⟩)).setFuture g (some ⟨true, none⟩)).stage = s.stage
        from rfl, hsame]
      exact hmoved
    | false =>
      have hnew : ∀ r z j, ((s.setFuture h (some ⟨shared, some i⟩)).setFuture g
          (some ⟨false, none⟩)).futures r = some z → z.state = some j →
            r = h ∧ z = ⟨shared, some i⟩ ∨ r ≠ g ∧ s.futures r = some z := by
        intro r z j hr hz
        by_cases hrg : r = g
        · subst hrg
          rw [State.setFuture_self, Option.some.injEq] at hr
          subst hr
          exact absurd hz (by simp)
        · rw [State.setFuture_of_ne _ _ hrg] at hr
          by_cases hrh : r = h
          · subst hrh
            rw [State.setFuture_self, Option.some.injEq] at hr
            exact .inl ⟨rfl, hr.symm⟩
          · rw [State.setFuture_of_ne _ _ hrh] at hr
            exact .inr ⟨hrg, hr⟩
      refine hs.restage hg (fun r z hr hz => ?_) fun r z j hr hz hji => ?_
      · rcases hnew r z i hr hz with ⟨rfl, rfl⟩ | ⟨hrg, hold⟩
        · rfl
        · obtain ⟨shared', state'⟩ := z
          obtain rfl : state' = some i := hz
          have hstage := hs.futures.unique g i hg
          cases shared' with
          | true => exact absurd (hstage.symm.trans (hs.futures.shared r i hold)) (by simp)
          | false =>
            have he := hstage.symm.trans (hs.futures.unique r i hold)
            rw [Stage.unique.injEq] at he
            exact absurd he.symm hrg
      · rcases hnew r z j hr hz with ⟨rfl, rfl⟩ | ⟨_, hold⟩
        · exact absurd (Option.some.inj hz).symm hji
        · exact hold

theorem Inv.obtain (hs : Inv s) {i : Nat} (hp : s.owners p = some x) (hx : x.state = some i)
    (hobtained : x.obtained = false) (hh : s.futures h = none) :
    Inv { (s.setOwner p (some { x with obtained := true })).setFuture h (some ⟨false, some i⟩) with
      retrieved := i :: s.retrieved
      stage := Function.update s.stage i (.unique h) } := by
  have hnot : i ∉ s.retrieved := fun hmem => by
    rw [(hs.owners.obtained p x i hp hx).mpr hmem] at hobtained
    exact absurd hobtained (by simp)
  have hfresh := hs.futures.fresh i hnot
  have howner : ∀ r y j, (s.setOwner p (some { x with obtained := true })).owners r = some y →
      y.state = some j → ∃ y', s.owners r = some y' ∧ y'.state = some j ∧
        (r = p ∧ j = i ∧ y.obtained = true ∨ r ≠ p ∧ y = y') := by
    intro r y j hr hy
    by_cases hrp : r = p
    · subst hrp
      rw [State.setOwner_self, Option.some.injEq] at hr
      subst hr
      exact ⟨x, hp, hy, .inl ⟨rfl, Option.some.inj (hy.symm.trans hx), rfl⟩⟩
    · rw [State.setOwner_of_ne _ _ hrp] at hr
      exact ⟨y, hr, hy, .inr ⟨hrp, rfl⟩⟩
  have hstage : ∀ j, j ≠ i → Function.update s.stage i (.unique h) j = s.stage j := fun j hj =>
    Function.update_of_ne hj _ _
  have hother : ∀ r z j, (s.setFuture h (some ⟨false, some i⟩)).futures r = some z → z.state = some j →
      r = h ∧ z = ⟨false, some i⟩ ∨ s.futures r = some z := by
    intro r z j hr hz
    by_cases hrh : r = h
    · subst hrh
      rw [State.setFuture_self, Option.some.injEq] at hr
      exact .inl ⟨rfl, hr.symm⟩
    · rw [State.setFuture_of_ne _ _ hrh] at hr
      exact .inr hr
  refine ⟨hs.core, ⟨hs.refs.tasks, hs.refs.running, hs.refs.new⟩,
    ⟨fun r r' y y' j hr hr' hy hy' => ?_, fun r y j hr hy => ?_, fun r y j hr hy => ?_,
      List.nodup_cons.mpr ⟨hnot, hs.owners.once⟩, ?_, fun j hj hlost => ?_⟩,
    ⟨fun j hj => ?_, fun r j hr => ?_, fun r j hr => ?_, fun f j hf => ?_, fun f j hf => ?_,
      fun j hj => ?_⟩⟩
  · obtain ⟨z, hz, hzj, _⟩ := howner r y j hr hy
    obtain ⟨z', hz', hzj', _⟩ := howner r' y' j hr' hy'
    exact hs.owners.inj r r' z z' j hz hz' hzj hzj'
  · obtain ⟨z, hz, hzj, _⟩ := howner r y j hr hy
    exact hs.owners.lt r z j hz hzj
  · obtain ⟨z, hz, hzj, ⟨rfl, rfl, hobt⟩ | ⟨hrp, rfl⟩⟩ := howner r y j hr hy
    · rw [hobt]
      exact ⟨fun _ => List.mem_cons_self, fun _ => rfl⟩
    · have hji : j ≠ i := by
        rintro rfl
        exact hrp (hs.owners.inj r p y x j hz hp hzj hx)
      rw [List.mem_cons, or_iff_right hji]
      exact hs.owners.obtained r y j hz hzj
  · exact List.forall_mem_cons.mpr ⟨hs.owners.lt p x i hp hx, hs.owners.retrieved⟩
  · refine (hs.owners.held j hj hlost).imp (fun ⟨r, y, hr, hy⟩ => ?_) id
    by_cases hrp : r = p
    · subst hrp
      obtain rfl : x = y := Option.some.inj (hp.symm.trans hr)
      exact ⟨r, _, State.setOwner_self _ _ _, hy⟩
    · exact ⟨r, y, (State.setOwner_of_ne s _ hrp).trans hr, hy⟩
  · rw [List.mem_cons, not_or] at hj
    exact (hstage j hj.1).trans (hs.futures.fresh j hj.2)
  · rcases hother r _ j hr rfl with ⟨rfl, he⟩ | hold
    · rw [Future.mk.injEq, Option.some.injEq] at he
      obtain rfl := he.2
      exact Function.update_self _ _ _
    · have hold' := hs.futures.unique r j hold
      have hji : j ≠ i := by
        rintro rfl
        exact absurd (hfresh.symm.trans hold') (by simp)
      exact (hstage j hji).trans hold'
  · rcases hother r _ j hr rfl with ⟨_, he⟩ | hold
    · exact absurd he (by simp)
    · have hold' := hs.futures.shared r j hold
      have hji : j ≠ i := by
        rintro rfl
        exact absurd (hfresh.symm.trans hold') (by simp)
      exact (hstage j hji).trans hold'
  · have hold := hs.futures.gets f j hf
    have hji : j ≠ i := by
      rintro rfl
      exact absurd (hfresh.symm.trans hold.1) (by simp)
    exact ⟨(hstage j hji).trans hold.1, hold.2⟩
  · have hold := hs.futures.sharedGets f j hf
    have hji : j ≠ i := by
      rintro rfl
      exact absurd (hfresh.symm.trans hold) (by simp)
    exact (hstage j hji).trans hold
  · obtain ⟨f, hf⟩ := hs.futures.moved j hj
    have hji : j ≠ i := by
      rintro rfl
      exact absurd (hfresh.symm.trans hf) (by simp)
    exact ⟨f, (hstage j hji).trans hf⟩

theorem Inv.getFuture (hs : Inv s) (hp : s.owners p = some x) (hh : s.futures h = none) (f : F) :
    Inv (s.getFuture f p h x) := by
  obtain ⟨kind, obtained, state⟩ := x
  cases obtained with
  | true => exact hs.throws f _
  | false =>
    cases state with
    | none => exact hs.throws f _
    | some i => exact hs.obtain hp rfl rfl hh

omit [DecidableEq P] in
/-- `get` of a `future` is the only call that moves the value. -/
theorem Inv.get (hs : Inv s) (hfree : s.core.task f = .idle) (hh : s.futures h = some z) :
    Inv (s.get f h z) := by
  obtain ⟨shared, state⟩ := z
  cases state with
  | none => exact hs.throws f _
  | some i =>
    have hlt := hs.future_lt hh rfl
    cases shared with
    | true =>
      have hstage := hs.futures.shared h i hh
      refine InvBut.call hs hfree hlt (fun moves ha => ⟨fun hm => ?_, fun _ => hstage⟩) fun _ hj =>
        absurd hj (by simp)
      subst hm
      exact absurd ha (by simp)
    | false =>
      have hstage := hs.futures.unique h i hh
      have hmoved : (s.core.data i).moved = false := by
        by_contra hm
        obtain ⟨g, hg⟩ := hs.futures.moved i (by simpa using hm)
        exact absurd (hstage.symm.trans hg) (by simp)
      have htaken : Inv ((s.setFuture h (some ⟨false, none⟩)).refers (some i) (.taken f)) := by
        refine hs.restage hh (fun r z hr hz => ?_) fun r z j hr hz hji => ?_
        · by_cases hrh : r = h
          · subst hrh
            rw [State.setFuture_self, Option.some.injEq] at hr
            exact absurd (hr ▸ hz) (by simp)
          · rw [State.setFuture_of_ne _ _ hrh] at hr
            obtain ⟨shared', state'⟩ := z
            obtain rfl : state' = some i := hz
            cases shared' with
            | true => exact absurd (hstage.symm.trans (hs.futures.shared r i hr)) (by simp)
            | false =>
              have he := hstage.symm.trans (hs.futures.unique r i hr)
              rw [Stage.unique.injEq] at he
              exact absurd he.symm hrh
        · by_cases hrh : r = h
          · subst hrh
            rw [State.setFuture_self, Option.some.injEq] at hr
            exact absurd (hr ▸ hz) (by simp)
          · rw [State.setFuture_of_ne _ _ hrh] at hr
            exact hr
      refine InvBut.call htaken hfree hlt (fun moves ha => ⟨fun _ => ⟨?_, hmoved⟩, fun hm => ?_⟩)
        fun _ hj => absurd hj (by simp)
      · exact Function.update_self _ _ _
      · subst hm
        exact absurd ha (by simp)

end Promise

end Dumbo.Fiber
