import Dumbo.Fiber.PromiseInvariant

/-!
# The one-shot protocol of promises and futures
-/

namespace Dumbo.Fiber.Promise

open Transition Monitored SharedState

variable {F P H V E : Type*} [DecidableEq F] {s t : State F P H V E} {c : Core F V E} {f : F} {i : Nat}
  {a : Call V E} {w : WaitKind}

/-! ### The calls go on -/

theorem Inv.advance (hs : Inv s) (hcore : CoreInv c)
    (hobject : ∀ g i, (c.task g).object = some i → (s.core.task g).object = some i)
    (hnew : ∀ i, s.next ≤ i → c.data i = .create)
    (hready : ∀ i, (s.core.data i).ready = true → (c.data i).ready = true)
    (hdestroyed : ∀ g i, s.core.task g = .enters i .ownerDestroyed →
      c.task g = .enters i .ownerDestroyed ∨ (c.data i).ready = true)
    (hgets : ∀ g i moves, Gets c g i moves → Gets s.core g i moves)
    (hmoved : ∀ i, (c.data i).moved = true →
      (s.core.data i).moved = true ∨ ∃ g, Gets s.core g i true ∧ ¬ Gets c g i true) :
    Inv { s with core := c } := by
  refine ⟨hcore, ⟨fun g i hi => hs.refs.tasks g i (hobject g i hi), hs.refs.running, hnew⟩,
    ⟨hs.owners.inj, hs.owners.lt, hs.owners.obtained, hs.owners.once, hs.owners.retrieved,
      fun i hi hlost => ?_⟩,
    ⟨hs.futures.fresh, hs.futures.unique, hs.futures.shared, fun g i hg => ?_,
      fun g i hg => hs.futures.sharedGets g i (hgets g i false hg), fun i hi => ?_⟩⟩
  · refine (hs.owners.held i hi hlost).imp id fun hrest => ?_
    rcases hrest with hd | ⟨g, hg⟩
    · exact .inl (hready i hd)
    · exact (hdestroyed g i hg).elim (fun hg => .inr ⟨g, hg⟩) .inl
  · obtain ⟨hstage, hold⟩ := hs.futures.gets g i (hgets g i true hg)
    refine ⟨hstage, ?_⟩
    by_contra hm
    rcases hmoved i (by simpa using hm) with hm | ⟨g', hg', hnot⟩
    · exact absurd (hold.symm.trans hm) (by simp)
    · have hsame := hstage.symm.trans (hs.futures.gets g' i hg').1
      rw [Stage.taken.injEq] at hsame
      exact hnot (hsame ▸ hg)
  · rcases hmoved i hi with hm | ⟨g, hg, _⟩
    · exact hs.futures.moved i hm
    · exact ⟨g, (hs.futures.gets g i hg).1⟩

theorem Inv.enter (hs : Inv s) (htask : s.core.task f = .enters i a) (hidle : s.core.cv.idle f = true) :
    Inv { s with core := s.core.enter methods f i a } := by
  have hcases := hs.core.enter_cases f i a
  have hready : ∀ j, (s.core.data j).ready = true →
      ((s.core.enter methods f i a).data j).ready = true := by
    intro j hj
    rcases hcases with ⟨_, hdata, _⟩ | ⟨_, ⟨hdata, _⟩ | ⟨d, x, _, hd, _, hdata, _⟩⟩
    · rw [hdata]
      exact hj
    · rw [hdata]
      exact hj
    · rw [hdata]
      by_cases hji : j = i
      · rw [hji, Function.update_self]
        exact hd
      · rw [Function.update_of_ne hji]
        exact hj
  refine hs.advance (hs.core.enter htask hidle) (fun g j hj => enter_object htask hj) (fun j hj => ?_)
    hready (fun g j hg => ?_) (fun g j moves hg => ?_) fun j hj => .inl ?_
  · have hi := hs.refs.tasks f i (by rw [htask]; rfl)
    rw [enter_data, Function.update_of_ne (by omega)]
    exact hs.refs.new j hj
  · by_cases hgf : f = g
    · subst hgf
      have he := htask.symm.trans hg
      rw [Task.enters.injEq] at he
      obtain ⟨rfl, rfl⟩ := he
      right
      rcases hcases with ⟨hd, _⟩ | ⟨_, ⟨_, _, hnone⟩ | ⟨d, x, _, hd, _, hdata, _⟩⟩
      · exact hready i hd
      · exact absurd hnone (by simp [Call.sets])
      · rw [hdata, Function.update_self]
        exact hd
    · rw [enter_task s.core i a hgf]
      exact .inl hg
  · by_cases hgf : f = g
    · subst hgf
      rcases hg with hg | hg
      · cases hout : (methods.enter a (s.core.data i)).2 with
        | returns r notify => exact absurd ((enter_returns hout).1.symm.trans hg) (by simp)
        | calls b =>
          have he := (enter_calls hout).1.symm.trans hg
          rw [Task.enters.injEq, enter_calls_eq hout] at he
          exact absurd he.2 (by simp)
        | waits k => exact absurd ((enter_begins hout).1.symm.trans hg) (by simp)
      · obtain ⟨rfl, hout, _⟩ := enter_waits (ConditionVariable.Inv.outside_of_idle hidle).1 hg
        exact .inl (enter_waits_eq hout ▸ htask)
    · rw [Gets, enter_task s.core i a hgf] at hg
      exact hg
  · rw [enter_data] at hj
    by_cases hji : j = i
    · rw [hji, Function.update_self, enter_moved] at hj
      exact hji ▸ hj
    · rw [Function.update_of_ne hji] at hj
      exact hj

/-- The value that a fiber waits for in `get` has not been moved away. -/
theorem Inv.not_moved (hs : Inv s) (htask : s.core.task f = .waits i w) (moves : Bool)
    (hw : w = .get moves) : (s.core.data i).moved = false := by
  subst hw
  have hgets : Gets s.core f i moves := .inr htask
  cases moves with
  | true => exact (hs.futures.gets f i hgets).2
  | false =>
    by_contra hm
    obtain ⟨g, hg⟩ := hs.futures.moved i (by simpa using hm)
    exact absurd (hg.symm.trans (hs.futures.sharedGets f i hgets)) (by simp)

theorem Inv.check (hs : Inv s) {k : WaitCall Nat Nat} {timeout : Bool}
    (htask : s.core.task f = .waits i w) (hphase : s.core.cv.phase f = .pred k timeout) :
    Inv { s with core := s.core.check methods f i w timeout } := by
  have hcore := hs.core.check htask hphase (hs.not_moved htask)
  have hcases := check_cases s.core f i w timeout
  cases hvalue : (s.core.data i).ready || timeout with
  | false =>
    rw [Bool.or_eq_false_iff] at hvalue
    obtain ⟨hpred, rfl⟩ := hvalue
    rw [check_again (m := methods) (f := f) (l := w) hpred] at hcore ⊢
    exact hs.advance hcore (fun _ _ => id) hs.refs.new (fun _ => id) (fun _ _ => .inl) (fun _ _ _ => id)
      fun _ => .inl
  | true =>
    obtain ⟨hdata, hidle, _⟩ := check_ends (m := methods) (f := f) (l := w) hvalue
    have hself : (s.core.check methods f i w timeout).task f = .idle := by
      rw [hidle, Function.update_self]
    have hothers : ∀ g, g ≠ f → (s.core.check methods f i w timeout).task g = s.core.task g :=
      fun g hg => by rw [hidle, Function.update_of_ne hg]
    have hnot : ∀ j moves, ¬ Gets (s.core.check methods f i w timeout) f j moves := by
      intro j moves hg
      rw [Gets, hself] at hg
      exact absurd hg (by simp)
    refine hs.advance hcore (fun g j hj => ?_) (fun j hj => ?_) (fun j hj => ?_) (fun g j hg => ?_)
      (fun g j moves hg => ?_) fun j hj => ?_
    · by_cases hg : g = f
      · rw [hg, hself] at hj
        exact absurd hj (by simp [Task.object])
      · exact hothers g hg ▸ hj
    · have hi := hs.refs.tasks f i (by rw [htask]; rfl)
      rw [hdata, Function.update_of_ne (by omega)]
      exact hs.refs.new j hj
    · rcases hcases with ⟨_, hsame, _⟩ | ⟨_, hsame, _⟩
      · rw [hsame]
        exact hj
      · rw [(hsame j).1]
        exact hj
    · have hgf : g ≠ f := by
        rintro rfl
        exact absurd (htask.symm.trans hg) (by simp)
      exact .inl ((hothers g hgf).trans hg)
    · have hgf : g ≠ f := by
        rintro rfl
        exact hnot j moves hg
      rw [Gets, hothers g hgf] at hg
      exact hg
    · rw [hdata] at hj
      by_cases hji : j = i
      · subst hji
        rw [Function.update_self] at hj
        rcases leave_moved w _ _ hj with hj | rfl
        · exact .inl hj
        · exact .inr ⟨f, .inr htask, hnot j true⟩
      · rw [Function.update_of_ne hji] at hj
        exact .inl hj

theorem Inv.aside (hs : Inv s) {b : Monitored.Action F Nat (Call V E)}
    {cv : ConditionVariable.State F Nat Nat}
    (hstep : Monitored.step methods s.core b = some { s.core with cv := cv })
    (hb : ∀ g, b ≠ .check g) : Inv { s with core := { s.core with cv := cv } } :=
  hs.advance
    ⟨hs.core.sync.step hstep,
      hs.core.justified.step laws hs.core.sync hstep fun g _ _ hg => absurd hg (hb g),
      hs.core.agrees, hs.core.first⟩
    (fun _ _ => id) hs.refs.new (fun _ => id) (fun _ _ => .inl) (fun _ _ _ => id) fun _ => .inl

theorem Inv.run (hs : Inv s) {b : Monitored.Action F Nat (Call V E)} (hb : ∀ g i a, b ≠ .call g i a)
    (hstep : Monitored.step methods s.core b = some c) : Inv { s with core := c } := by
  cases Monitored.acted hstep with
  | call _ => exact absurd rfl (hb _ _ _)
  | enter htask hidle => exact hs.enter htask hidle
  | check htask hphase => exact hs.check htask hphase
  | resume _ => exact hs.aside hstep fun _ => by simp
  | expire _ => exact hs.aside hstep fun _ => by simp
  | tick _ => exact hs.aside hstep fun _ => by simp

/-! ### Every step keeps the invariant -/

theorem Inv.setRunning (hs : Inv s) {states : List Nat} (hstates : ∀ i ∈ states, i < s.next) (f : F) :
    Inv (s.setRunning f states) := by
  refine ⟨hs.core, ⟨hs.refs.tasks, fun g i hi => ?_, hs.refs.new⟩,
    ⟨hs.owners.inj, hs.owners.lt, hs.owners.obtained, hs.owners.once, hs.owners.retrieved,
      hs.owners.held⟩,
    ⟨hs.futures.fresh, hs.futures.unique, hs.futures.shared, hs.futures.gets, hs.futures.sharedGets,
      hs.futures.moved⟩⟩
  by_cases hg : g = f
  · subst hg
    rw [show (s.setRunning g states).running g = states from Function.update_self _ _ _] at hi
    exact hstates i hi
  · rw [show (s.setRunning f states).running g = s.running g from Function.update_of_ne hg _ _] at hi
    exact hs.refs.running g i hi

theorem Inv.invoke (hs : Inv s) {p : P} {x : Owner} (hp : s.owners p = some x) (f : F) :
    Inv (s.invoke f x) := by
  obtain ⟨kind, obtained, state⟩ := x
  cases state with
  | none => exact hs.throws f _
  | some i =>
    exact hs.setRunning (List.forall_mem_cons.mpr ⟨hs.owners.lt p _ i hp rfl, hs.refs.running f⟩) f

theorem Inv.returns (hs : Inv s) (hfree : s.core.task f = .idle) {states : List Nat}
    (hrunning : s.running f = i :: states) (ha : a.sets.isSome) :
    Inv ((s.setRunning f states).call f i a) := by
  have hlt := hs.refs.running f
  rw [hrunning, List.forall_mem_cons] at hlt
  refine InvBut.call (hs.setRunning hlt.2 f) hfree hlt.1 (fun moves he => ?_) fun _ hj =>
    absurd hj (by simp)
  rw [he] at ha
  exact absurd ha Bool.false_ne_true

variable [DecidableEq P] {p : P} {x : Owner}

theorem Inv.reset (hs : Inv s) (hfree : s.core.task f = .idle) (hp : s.owners p = some x) :
    Inv (s.reset f p x) := by
  obtain ⟨kind, obtained, state⟩ := x
  cases state with
  | none => exact hs.throws f _
  | some i =>
    have hcreated : InvBut (some i) (s.create p kind) := InvBut.create hs kind fun x hx => by
      rw [← Option.some.inj (hp.symm.trans hx)]
    refine InvBut.abandon (x := ⟨kind, obtained, some i⟩) hcreated hfree fun j hj => ?_
    exact Nat.lt_succ_of_lt (hs.owners.lt p _ j hp hj)

variable [DecidableEq H]

theorem Inv.step (hs : Inv s) {b : Action F P H V E} (hstep : Promise.step s b = some t) : Inv t := by
  have hself : ∀ {p : P} {x y : Owner}, s.owners p = some x → s.owners p = some y → y.state = x.state :=
    fun hx hy => congrArg Owner.state (Option.some.inj (hy.symm.trans hx))
  cases acted hstep with
  | @newOwner p kind hp =>
    exact InvBut.create hs kind fun x hx => absurd (hp.symm.trans hx) (by simp)
  | @newTask p hp =>
    refine InvBut.setOwner hs (fun x hx => absurd (hp.symm.trans hx) (by simp)) fun y hy => ?_
    obtain rfl := Option.some.inj hy
    rfl
  | @moveConstruct p q x hp hq =>
    refine InvBut.move hs ?_ (fun y hy => absurd (hp.symm.trans hy) (by simp)) hq
    rintro rfl
    exact absurd (hp.symm.trans hq) (by simp)
  | moveSelf => exact hs
  | @moveAssign f p q x y hfree hp hq hpq =>
    exact InvBut.abandon (InvBut.move hs hpq (fun z hz => hself hp hz) hq) hfree
      fun i hi => hs.owners.lt p x i hp hi
  | swap hp hq => exact hs.swap hp hq
  | @destroy f p x hfree hp =>
    exact InvBut.abandon (InvBut.setOwner hs (fun z hz => hself hp hz) fun y hy => absurd hy (by simp))
      hfree fun i hi => hs.owners.lt p x i hp hi
  | getFuture hp hh => exact hs.getFuture hp hh _
  | @setValue f p x value hfree hp | @setException f p x except hfree hp =>
    exact hs.callOr hfree (fun i hi => hs.owners.lt p x i hp hi) fun _ => by simp
  | invoke hp => exact hs.invoke hp _
  | returns hfree hrunning ha => exact hs.returns hfree hrunning (by rw [ha]; rfl)
  | reset hfree hp => exact hs.reset hfree hp
  | newFuture hh =>
    refine hs.setFuture fun z i hz hi => ?_
    obtain rfl := Option.some.inj hz
    exact absurd hi (by simp)
  | @moveFuture h g shared y hh hg hkind =>
    refine hs.moveFuture ?_ hg hkind
    rintro rfl
    exact absurd (hh.symm.trans hg) (by simp)
  | assignSelf => exact hs
  | assignFuture _ hg hkind hgh => exact hs.moveFuture hgh hg hkind
  | @copyFuture h g y hg hshared | @copyAssign h g y hg hshared =>
    refine hs.setFuture fun z i hz hi => ?_
    obtain rfl := Option.some.inj hz
    obtain ⟨shared, state⟩ := y
    obtain rfl : shared = true := hshared
    obtain rfl : state = some i := hi
    exact ⟨rfl, hs.futures.shared g i hg⟩
  | shareThrows => exact hs.throws _ _
  | @share f h g y hh hg =>
    refine hs.moveFuture ?_ hg rfl
    rintro rfl
    exact absurd (hh.symm.trans hg) (by simp)
  | destroyFuture => exact hs.setFuture fun z i hz _ => absurd hz (by simp)
  | wait hfree hh | getExceptionPtr hfree hh =>
    exact hs.callOr hfree (fun i hi => hs.future_lt hh hi) fun _ => by simp
  | get hfree hh => exact hs.get hfree hh
  | run hb hcore => exact hs.run hb hcore

theorem reachable_inv {clock : Nat} (hs : (machine F P H V E clock).Reachable s) : Inv s :=
  hs.invariant (.initial clock) fun _ _ _ h hstep => h.step hstep

/-! ### What is decided stays decided -/

omit [DecidableEq P] [DecidableEq H] in
theorem callOr_core (hfree : s.core.task f = .idle) (state : Option Nat) (a : Call V E)
    (e : Exception E) : (s.callOr f state a e).core = s.core ∨
      ∃ b, Monitored.step methods s.core b = some (s.callOr f state a e).core := by
  cases state with
  | none => exact .inl rfl
  | some i =>
    right
    refine ⟨.call f i a, ?_⟩
    rw [Monitored.step, hfree]
    rfl

omit [DecidableEq P] [DecidableEq H] in
theorem abandon_core (hfree : s.core.task f = .idle) (x : Owner) : (s.abandon f x).core = s.core ∨
    ∃ b, Monitored.step methods s.core b = some (s.abandon f x).core := by
  obtain ⟨kind, obtained, state⟩ := x
  cases state with
  | none => exact .inl rfl
  | some i => exact callOr_core hfree (some i) .ownerDestroyed .promiseUninitialized

omit [DecidableEq P] [DecidableEq H] in
theorem abandon_stage (s : State F P H V E) (f : F) (x : Owner) : (s.abandon f x).stage = s.stage := by
  obtain ⟨kind, obtained, state⟩ := x
  cases state with
  | none => rfl
  | some i => rfl

theorem core_step {b : Action F P H V E} (hstep : step s b = some t) : t.core = s.core ∨
    ∃ b, Monitored.step methods s.core b = some t.core := by
  cases acted hstep with
  | newOwner _ | newTask _ | moveConstruct _ _ | moveSelf | swap _ _ | newFuture _ | assignSelf
  | copyFuture _ _ | copyAssign _ _ | shareThrows | destroyFuture => exact .inl rfl
  | @moveAssign f p q x y hfree _ _ _ =>
    exact abandon_core (s := (s.setOwner p (some y)).setOwner q (some ⟨y.kind, false, none⟩)) hfree x
  | @destroy f p x hfree _ => exact abandon_core (s := s.setOwner p none) hfree x
  | @reset f p x hfree _ =>
    obtain ⟨kind, obtained, state⟩ := x
    cases state with
    | none => exact .inl rfl
    | some i => exact abandon_core (s := s.create p kind) hfree ⟨kind, obtained, some i⟩
  | @getFuture f p h x _ _ =>
    obtain ⟨kind, obtained, state⟩ := x
    cases obtained with
    | true => exact .inl rfl
    | false => cases state <;> exact .inl rfl
  | setValue hfree _ | setException hfree _ | wait hfree _ | getExceptionPtr hfree _ =>
    exact callOr_core hfree _ _ _
  | @invoke f p x _ =>
    obtain ⟨kind, obtained, state⟩ := x
    cases state <;> exact .inl rfl
  | @returns f result i states a hfree _ _ =>
    exact callOr_core (s := s.setRunning f states) hfree (some i) a .promiseUninitialized
  | @moveFuture h g shared y _ _ _ =>
    obtain ⟨unique, state⟩ := y
    cases state <;> exact .inl rfl
  | @assignFuture h g x y _ _ _ _ =>
    obtain ⟨unique, state⟩ := y
    cases state <;> exact .inl rfl
  | @share f h g y _ _ =>
    obtain ⟨unique, state⟩ := y
    cases state <;> exact .inl rfl
  | @get f h y hfree _ =>
    obtain ⟨shared, state⟩ := y
    cases state with
    | none => exact .inl rfl
    | some i =>
      cases shared with
      | true => exact callOr_core hfree (some i) _ .futureUninitialized
      | false =>
        exact callOr_core (s := (s.setFuture h (some ⟨false, none⟩)).refers (some i) (.taken f)) hfree
          (some i) (.wait (.get true)) .futureUninitialized
  | run _ hcore => exact .inr ⟨_, hcore⟩

omit [DecidableEq P] [DecidableEq H] in
/-- A state that is ready keeps its outcome. -/
theorem CoreInv.keeps {c' : Core F V E} (hc : CoreInv c) {b : Monitored.Action F Nat (Call V E)}
    (hstep : Monitored.step methods c b = some c') (hd : (c.data i).ready = true) :
    (c'.data i).ready = true ∧ (c'.data i).outcome = (c.data i).outcome := by
  cases Monitored.acted hstep with
  | call _ | resume _ | expire _ | tick _ => exact ⟨hd, rfl⟩
  | @enter f j a _ _ =>
    rcases hc.enter_cases f j a with ⟨_, hdata, _⟩ | ⟨hnot, ⟨hdata, _⟩ | ⟨d, x, _, _, _, hdata, _⟩⟩
    · rw [hdata]
      exact ⟨hd, rfl⟩
    · rw [hdata]
      exact ⟨hd, rfl⟩
    · have hij : i ≠ j := by
        rintro rfl
        exact absurd (hd.symm.trans hnot) (by simp)
      rw [hdata, Function.update_of_ne hij]
      exact ⟨hd, rfl⟩
  | @check f j w k timeout _ _ =>
    rcases check_cases c f j w timeout with ⟨_, hdata, _⟩ | ⟨_, hdata, _⟩
    · rw [hdata]
      exact ⟨hd, rfl⟩
    · exact ⟨(hdata i).1.trans hd, (hdata i).2⟩

/-- A state that is ready keeps its outcome, and one whose `future` has been used up stays so. -/
structure Keeps (s t : State F P H V E) : Prop where
  ready : ∀ i, (s.core.data i).ready = true →
    (t.core.data i).ready = true ∧ (t.core.data i).outcome = (s.core.data i).outcome
  taken : ∀ i f, s.stage i = .taken f → t.stage i = .taken f

omit [DecidableEq F] [DecidableEq P] [DecidableEq H] in
theorem Keeps.refl (s : State F P H V E) : Keeps s s := ⟨fun _ hd => ⟨hd, rfl⟩, fun _ _ => id⟩

omit [DecidableEq F] [DecidableEq P] [DecidableEq H] in
theorem Keeps.trans {u : State F P H V E} (h : Keeps s t) (h' : Keeps t u) : Keeps s u := by
  refine ⟨fun i hd => ?_, fun i f hf => h'.taken i f (h.taken i f hf)⟩
  obtain ⟨hready, hsame⟩ := h.ready i hd
  obtain ⟨hready', hsame'⟩ := h'.ready i hready
  exact ⟨hready', hsame'.trans hsame⟩

omit [DecidableEq P] [DecidableEq H] in
theorem Inv.not_taken (hs : Inv s) {g : H} {y : Future} (hg : s.futures g = some y)
    (hi : y.state = some i) (f : F) : s.stage i ≠ .taken f := by
  obtain ⟨shared, state⟩ := y
  obtain rfl : state = some i := hi
  intro hf
  cases shared with
  | false => exact absurd (hf.symm.trans (hs.futures.unique g i hg)) (by simp)
  | true => exact absurd (hf.symm.trans (hs.futures.shared g i hg)) (by simp)

omit [DecidableEq F] [DecidableEq P] [DecidableEq H] in
theorem taken_update {stage : Stage F H} (hnot : ∀ f, s.stage i ≠ .taken f) (j : Nat) (f : F)
    (hf : s.stage j = .taken f) : Function.update s.stage i stage j = .taken f := by
  have hji : j ≠ i := by
    rintro rfl
    exact hnot f hf
  exact (Function.update_of_ne hji _ _).trans hf

omit [DecidableEq P] in
theorem Inv.taken_moveFuture (hs : Inv s) {g h : H} {y : Future} (hg : s.futures g = some y)
    (shared : Bool) (j : Nat) (e : F) (he : s.stage j = .taken e) :
    (s.moveFuture h g shared y).stage j = .taken e := by
  obtain ⟨unique, state⟩ := y
  cases state with
  | none => exact he
  | some i => exact taken_update (fun f => hs.not_taken hg rfl f) j e he

theorem Inv.taken (hs : Inv s) {b : Action F P H V E} (hstep : Promise.step s b = some t) (j : Nat)
    (e : F) (he : s.stage j = .taken e) : t.stage j = .taken e := by
  cases acted hstep with
  | newOwner _ | newTask _ | moveConstruct _ _ | moveSelf | swap _ _ | newFuture _ | assignSelf
  | copyFuture _ _ | copyAssign _ _ | shareThrows | destroyFuture | returns _ _ _ | run _ _ => exact he
  | moveAssign _ _ _ _ =>
    rw [State.moveAssign, abandon_stage]
    exact he
  | destroy _ _ =>
    rw [abandon_stage]
    exact he
  | @reset f p x _ _ =>
    obtain ⟨kind, obtained, state⟩ := x
    cases state <;> exact he
  | @getFuture f p h x hp _ =>
    obtain ⟨kind, obtained, state⟩ := x
    cases obtained with
    | true => exact he
    | false =>
      cases state with
      | none => exact he
      | some i =>
        refine taken_update (fun g hg => ?_) j e he
        have hfresh := hs.futures.fresh i fun hmem =>
          absurd ((hs.owners.obtained p _ i hp rfl).mpr hmem) Bool.false_ne_true
        exact absurd (hfresh.symm.trans hg) (by simp)
  | @setValue f p x _ _ _ | @setException f p x _ _ _ | @invoke f p x _ =>
    obtain ⟨kind, obtained, state⟩ := x
    cases state <;> exact he
  | @wait f h y _ _ _ | @getExceptionPtr f h y _ _ =>
    obtain ⟨shared, state⟩ := y
    cases state <;> exact he
  | moveFuture _ hg _ | assignFuture _ hg _ _ | share _ hg => exact hs.taken_moveFuture hg _ j e he
  | @get f h y _ hh =>
    obtain ⟨shared, state⟩ := y
    cases state with
    | none => exact he
    | some i =>
      cases shared with
      | true => exact he
      | false => exact taken_update (fun g => hs.not_taken hh rfl g) j e he

theorem Inv.keeps (hs : Inv s) {b : Action F P H V E} (hstep : Promise.step s b = some t) :
    Keeps s t := by
  refine ⟨fun i hd => ?_, hs.taken hstep⟩
  rcases core_step hstep with hcore | ⟨b', hcore⟩
  · rw [hcore]
    exact ⟨hd, rfl⟩
  · exact hs.core.keeps hcore hd

theorem Inv.exec {clock : Nat} {as : List (Action F P H V E)} (hs : Inv s)
    (hrun : (machine F P H V E clock).exec s as = some t) : Inv t ∧ Keeps s t := by
  induction as generalizing s with
  | nil =>
    obtain rfl := Option.some.inj hrun
    exact ⟨hs, .refl s⟩
  | cons b as ih =>
    obtain ⟨u, hu, ht⟩ := Machine.exec_cons.mp hrun
    obtain ⟨hinv, hkeeps⟩ := ih (hs.step hu) ht
    exact ⟨hinv, (hs.keeps hu).trans hkeeps⟩

/-! ### The protocol -/

/-- The steps that destroy the owner of a state, or overwrite it. -/
def Overwrites (f : F) (p : P) (b : Action F P H V E) : Prop :=
  b = .destroy f p ∨ b = .reset f p ∨ ∃ q, p ≠ q ∧ b = .moveAssign f p q

/-- A call on an object enters the shared state of the object, or throws where there is none. -/
def Reaches (s t : State F P H V E) (f : F) (state : Option Nat) (a : Call V E) (e : Exception E) : Prop :=
  (∀ i, state = some i → t.core.task f = .enters i a ∧ t.core.data = s.core.data) ∧
    (state = none → t = s.throws f e)

structure Protocol (clock : Nat) (s : State F P H V E) : Prop where
  setValue : ∀ f p x value, s.core.task f = .idle → s.owners p = some x → x.kind = .promise →
    ∃ t, step s (.setValue f p value) = some t ∧
      Reaches s t f x.state (.setValue value) .promiseUninitialized
  setException : ∀ f p x except, s.core.task f = .idle → s.owners p = some x → x.kind = .promise →
    ∃ t, step s (.setException f p except) = some t ∧
      Reaches s t f x.state (.setException except) .promiseUninitialized
  invoke : ∀ f p x, s.core.task f = .idle → s.owners p = some x → x.kind = .packagedTask →
    ∃ t, step s (.invoke f p) = some t ∧ t.core = s.core ∧
      (∀ i, x.state = some i → t.running f = i :: s.running f) ∧
      (x.state = none → t = s.throws f .packagedTaskUninitialized)
  /-- what a task function returns or throws reaches the state that the task has had at its call -/
  returns : ∀ f i states result, s.core.task f = .idle → s.running f = i :: states →
    ∃ t, step s (.returns f result) = some t ∧ t.running f = states ∧ t.core.data = s.core.data ∧
      (∀ value, result = .ok value → t.core.task f = .enters i (.runValue value)) ∧
      (∀ except, result = .error except → t.core.task f = .enters i (.setException except))
  wait : ∀ f h y timeoutTime, s.core.task f = .idle → s.futures h = some y →
    ∃ t, step s (.wait f h timeoutTime) = some t ∧
      Reaches s t f y.state (.wait (.wait timeoutTime)) .futureUninitialized
  get : ∀ f h y, s.core.task f = .idle → s.futures h = some y →
    ∃ t, step s (.get f h) = some t ∧ Reaches s t f y.state (.wait (.get (!y.shared))) .futureUninitialized
  getExceptionPtr : ∀ f h y, s.core.task f = .idle → s.futures h = some y →
    ∃ t, step s (.getExceptionPtr f h) = some t ∧
      Reaches s t f y.state (.wait .getExceptionPtr) .futureUninitialized
  asks : ∀ f i w t, s.core.task f = .enters i (.wait w) → step s (.run (.enter f)) = some t →
    t.core.task f = .waits i w ∧ t.core.data = s.core.data
  /-- a state becomes ready once, and keeps its outcome -/
  once : ∀ as t, (machine F P H V E clock).exec s as = some t → ∀ i, (s.core.data i).ready = true →
    (t.core.data i).ready = true ∧ (t.core.data i).outcome = (s.core.data i).outcome
  /-- of the calls on a state one has made it ready, or none -/
  first : ∀ i, (s.core.returned.filter fun r => r.object = i && r.result.satisfies).length =
    if (s.core.data i).ready then 1 else 0
  agrees : ∀ r ∈ s.core.returned, Agrees (s.core.data r.object).outcome r.result
  sets : ∀ f i a x t, s.core.task f = .enters i a → a.sets = some x →
    step s (.run (.enter f)) = some t → (s.core.data i).ready = false →
      (t.core.data i).outcome = some x ∧ t.core.returned = ⟨f, i, .satisfied x⟩ :: s.core.returned
  /-- a later setter throws and changes nothing; the handler of a task sets its exception, and throws -/
  later : ∀ f i a x t, s.core.task f = .enters i a → a.sets = some x →
    step s (.run (.enter f)) = some t → (s.core.data i).ready = true → t.core.data = s.core.data ∧
      (a = .ownerDestroyed ∧ t.core.returned = ⟨f, i, .unaffected⟩ :: s.core.returned ∨
        (∃ value, a = .runValue value) ∧ t.core.returned = s.core.returned ∧
          t.core.task f = .enters i (.setException .promiseAlreadySatisfied) ∨
        (∀ value, a ≠ .runValue value) ∧ a ≠ .ownerDestroyed ∧
          t.core.returned = ⟨f, i, .alreadySatisfied⟩ :: s.core.returned)
  overwritten : ∀ f p b t x i, Overwrites f p b → step s b = some t → s.owners p = some x →
    x.state = some i → t.core.task f = .enters i .ownerDestroyed ∧ t.core.data = s.core.data
  held : ∀ i < s.next, (∃ p x, s.owners p = some x ∧ x.state = some i) ∨
    (s.core.data i).ready = true ∨ ∃ f, s.core.task f = .enters i .ownerDestroyed
  /-- no fiber is left in the wait queue of a state that is ready -/
  woken : ∀ f i w, s.core.task f = .waits i w → (s.core.data i).ready = true →
    ¬ Linked methods s.core f i w
  waits : ∀ f i w b t, s.core.task f = .waits i w → (s.core.data i).ready = true → step s b = some t →
    t.core.task f = .waits i w ∨ t.core.task f = .idle ∧
      ∃ r : Result V E, t.core.returned = ⟨f, i, r⟩ :: s.core.returned ∧
        Agrees (s.core.data i).outcome r ∧ r ≠ .status false
  /-- where nothing goes on by itself, fibers wait for states that are not ready -/
  quiet : Quiescent s.core → ∀ f, s.core.task f ≠ .idle →
    ∃ i w, s.core.task f = .waits i w ∧ (s.core.data i).ready = false
  retrieved : s.retrieved.Nodup
  getFuture : ∀ f p h x i t, s.owners p = some x → x.state = some i → step s (.getFuture f p h) = some t →
    t.retrieved = i :: s.retrieved ∧ t.futures h = some ⟨false, some i⟩ ∨
      i ∈ s.retrieved ∧ t = s.throws f .futureAlreadyRetrieved
  /-- behind `get` the future is invalid, and no other refers to its state -/
  used : ∀ f h i t, s.futures h = some ⟨false, some i⟩ → step s (.get f h) = some t →
    t.futures h = some ⟨false, none⟩ ∧ ∀ as u, (machine F P H V E clock).exec t as = some u →
      ∀ g y, u.futures g = some y → y.state ≠ some i
  invalid : ∀ f h shared t, s.futures h = some ⟨shared, none⟩ → step s (.get f h) = some t →
    t = s.throws f .futureUninitialized

omit [DecidableEq P] [DecidableEq H] in
theorem reaches_call (s : State F P H V E) (f : F) (i : Nat) (a : Call V E) :
    (s.call f i a).core.task f = .enters i a ∧ (s.call f i a).core.data = s.core.data :=
  ⟨Function.update_self _ _ _, rfl⟩

omit [DecidableEq P] [DecidableEq H] in
theorem reaches_callOr (s : State F P H V E) (f : F) (state : Option Nat) (a : Call V E) (e : Exception E) :
    Reaches s (s.callOr f state a e) f state a e := by
  constructor
  · intro i hi
    rw [hi]
    exact reaches_call s f i a
  · intro hi
    rw [hi]
    rfl

omit [DecidableEq P] in
theorem reaches_get (s : State F P H V E) (f : F) (h : H) (y : Future) :
    Reaches s (s.get f h y) f y.state (.wait (.get (!y.shared))) .futureUninitialized := by
  obtain ⟨shared, state⟩ := y
  constructor
  · intro i hi
    obtain rfl : state = some i := hi
    cases shared with
    | true => exact reaches_call s f i _
    | false => exact reaches_call ((s.setFuture h (some ⟨false, none⟩)).refers (some i) (.taken f)) f i _
  · intro hi
    obtain rfl : state = none := hi
    rfl

omit [DecidableEq F] [DecidableEq P] [DecidableEq H] in
theorem ownerOf_idle {kind : Kind} (hidle : s.core.task f = .idle) (hp : s.owners p = some x)
    (hkind : x.kind = kind) : s.ownerOf f p kind = some x := by
  rw [State.ownerOf, Option.filter_eq_some_iff, Bool.and_eq_true]
  exact ⟨hp, free_iff.mpr hidle, decide_eq_true hkind⟩

omit [DecidableEq F] [DecidableEq P] [DecidableEq H] in
theorem futureOf_idle (hidle : s.core.task f = .idle) (hh : s.futures h = some y) :
    s.futureOf f h = some y := by
  rw [State.futureOf, Option.filter_eq_some_iff]
  exact ⟨hh, free_iff.mpr hidle⟩

omit [DecidableEq P] [DecidableEq H] in
theorem invoke_runs (s : State F P H V E) (f : F) (x : Owner) : (s.invoke f x).core = s.core ∧
    (∀ i, x.state = some i → (s.invoke f x).running f = i :: s.running f) ∧
    (x.state = none → s.invoke f x = s.throws f .packagedTaskUninitialized) := by
  rw [State.invoke]
  cases x.state with
  | none => exact ⟨rfl, by simp, fun _ => rfl⟩
  | some i =>
    refine ⟨rfl, fun j hj => ?_, by simp⟩
    obtain rfl := Option.some.inj hj
    exact Function.update_self _ _ _

theorem returns_reaches {states : List Nat} (result : Except (Exception E) V)
    (hidle : s.core.task f = .idle) (hrunning : s.running f = i :: states) :
    ∃ t, step s (.returns f result) = some t ∧ t.running f = states ∧ t.core.data = s.core.data ∧
      (∀ value, result = .ok value → t.core.task f = .enters i (.runValue value)) ∧
      (∀ except, result = .error except → t.core.task f = .enters i (.setException except)) := by
  simp only [step, hrunning, if_pos (free_iff.mpr hidle)]
  refine ⟨_, rfl, Function.update_self _ _ _, rfl, ?_, ?_⟩
  · rintro value rfl
    exact Function.update_self _ _ _
  · rintro except rfl
    exact Function.update_self _ _ _

theorem enter_step (htask : s.core.task f = .enters i a)
    (hstep : step s (.run (.enter f)) = some t) : t = { s with core := s.core.enter methods f i a } := by
  cases acted hstep with
  | run _ hcore =>
    cases Monitored.acted hcore with
    | enter htask' _ =>
      have he := htask.symm.trans htask'
      rw [Task.enters.injEq] at he
      obtain ⟨rfl, rfl⟩ := he
      rfl

omit [DecidableEq P] [DecidableEq H] in
theorem Inv.sets {x : Except (Exception E) V} (hs : Inv s) (ha : a.sets = some x)
    (hd : (s.core.data i).ready = false) :
    ((s.core.enter methods f i a).data i).outcome = some x ∧
      (s.core.enter methods f i a).returned = ⟨f, i, .satisfied x⟩ :: s.core.returned := by
  rcases hs.core.enter_cases f i a with ⟨hready, _⟩ | ⟨_, ⟨_, _, hnone⟩ | ⟨d, y, hy, _, houtcome, hdata, hret⟩⟩
  · exact absurd (hready.symm.trans hd) (by simp)
  · exact absurd (hnone.symm.trans ha) (by simp)
  · obtain rfl := Option.some.inj (ha.symm.trans hy)
    rw [hdata, Function.update_self]
    exact ⟨houtcome, hret⟩

omit [DecidableEq P] [DecidableEq H] in
theorem later {x : Except (Exception E) V} (ha : a.sets = some x) (hd : (c.data i).ready = true) :
    (c.enter methods f i a).data = c.data ∧
      (a = .ownerDestroyed ∧ (c.enter methods f i a).returned = ⟨f, i, .unaffected⟩ :: c.returned ∨
        (∃ value, a = .runValue value) ∧ (c.enter methods f i a).returned = c.returned ∧
          (c.enter methods f i a).task f = .enters i (.setException .promiseAlreadySatisfied) ∨
        (∀ value, a ≠ .runValue value) ∧ a ≠ .ownerDestroyed ∧
          (c.enter methods f i a).returned = ⟨f, i, .alreadySatisfied⟩ :: c.returned) := by
  obtain ⟨hsame, hout⟩ := enter_ready hd a
  refine ⟨by rw [enter_data, hsame, Function.update_eq_self], ?_⟩
  cases a with
  | setValue value => exact .inr (.inr ⟨fun _ => by simp, by simp, (enter_returns hout).2⟩)
  | setException except => exact .inr (.inr ⟨fun _ => by simp, by simp, (enter_returns hout).2⟩)
  | runValue value => exact .inr (.inl ⟨⟨value, rfl⟩, (enter_calls hout).2, (enter_calls hout).1⟩)
  | ownerDestroyed => exact .inl ⟨rfl, (enter_returns hout).2⟩
  | wait w => exact absurd ha (by simp [Call.sets])

theorem overwritten {b : Action F P H V E} (hb : Overwrites f p b) (hstep : step s b = some t)
    (hp : s.owners p = some x) (hx : x.state = some i) :
    t.core.task f = .enters i .ownerDestroyed ∧ t.core.data = s.core.data := by
  have habandon : ∀ u : State F P H V E, u.core = s.core →
      (u.abandon f x).core.task f = .enters i .ownerDestroyed ∧
        (u.abandon f x).core.data = s.core.data := by
    intro u hu
    rw [State.abandon, hx]
    refine ⟨Function.update_self _ _ _, ?_⟩
    show u.core.data = s.core.data
    rw [hu]
  rcases hb with rfl | rfl | ⟨q, hpq, rfl⟩
  · cases acted hstep with
    | destroy _ hp' =>
      obtain rfl := Option.some.inj (hp.symm.trans hp')
      exact habandon _ rfl
  · cases acted hstep with
    | reset _ hp' =>
      obtain rfl := Option.some.inj (hp.symm.trans hp')
      have hcreated := habandon (s.create p x.kind) rfl
      rw [State.reset, hx]
      exact hcreated
  · cases acted hstep with
    | moveSelf => exact absurd rfl hpq
    | moveAssign _ hp' _ _ =>
      obtain rfl := Option.some.inj (hp.symm.trans hp')
      exact habandon _ rfl

theorem Inv.ends (hs : Inv s) {b : Action F P H V E} (htask : s.core.task f = .waits i w)
    (hd : (s.core.data i).ready = true) (hstep : Promise.step s b = some t) :
    t.core.task f = .waits i w ∨ t.core.task f = .idle ∧
      ∃ r : Result V E, t.core.returned = ⟨f, i, r⟩ :: s.core.returned ∧
        Agrees (s.core.data i).outcome r ∧ r ≠ .status false := by
  rcases core_step hstep with hcore | ⟨b', hcore⟩
  · rw [hcore]
    exact .inl htask
  generalize t.core = c at hcore
  cases Monitored.acted hcore with
  | @call g j a hidle =>
    have hfg : f ≠ g := by
      rintro rfl
      exact absurd (htask.symm.trans hidle) (by simp)
    exact .inl ((Function.update_of_ne hfg _ _).trans htask)
  | @enter g j a hg _ =>
    have hgf : g ≠ f := by
      rintro rfl
      exact absurd (htask.symm.trans hg) (by simp)
    exact .inl ((enter_task s.core j a hgf).trans htask)
  | @check g j w' k timeout hg hphase =>
    by_cases hfg : f = g
    · subst hfg
      have he := htask.symm.trans hg
      rw [Task.waits.injEq] at he
      obtain ⟨rfl, rfl⟩ := he
      have hvalue : ((s.core.data i).ready || timeout) = true := by rw [hd, Bool.true_or]
      obtain ⟨_, hidle, hret⟩ := check_ends (m := methods) (f := f) (l := w) hvalue
      have hagrees := hs.core.check_agrees htask hphase hvalue (hs.not_moved htask)
      rw [hd] at hagrees
      refine .inr ⟨by rw [hidle, Function.update_self], _, hret, ?_, ?_⟩
      · rw [show methods.pred w (s.core.data i) = true from hd]
        exact hagrees
      · rw [show methods.pred w (s.core.data i) = true from hd]
        exact leave_ready w _
    · left
      rcases check_cases s.core g j w' timeout with ⟨_, _, hsame, _⟩ | ⟨_, _, hsame, _⟩
      · rw [hsame]
        exact htask
      · rw [hsame, Function.update_of_ne hfg]
        exact htask
  | resume _ | expire _ | tick _ => exact .inl htask

theorem Inv.obtains (hs : Inv s) {h : H} (hp : s.owners p = some x) (hx : x.state = some i)
    (hstep : Promise.step s (.getFuture f p h) = some t) :
    t.retrieved = i :: s.retrieved ∧ t.futures h = some ⟨false, some i⟩ ∨
      i ∈ s.retrieved ∧ t = s.throws f .futureAlreadyRetrieved := by
  cases acted hstep with
  | getFuture hp' _ =>
    obtain rfl := Option.some.inj (hp.symm.trans hp')
    obtain ⟨kind, obtained, state⟩ := x
    obtain rfl : state = some i := hx
    cases obtained with
    | true => exact .inr ⟨(hs.owners.obtained p _ i hp rfl).mp rfl, rfl⟩
    | false => exact .inl ⟨rfl, Function.update_self _ _ _⟩

/-- After `get` of a `future`, in any run, no future refers to its state. -/
theorem Inv.used (hs : Inv s) {h : H} (clock : Nat) (hh : s.futures h = some ⟨false, some i⟩)
    (hstep : Promise.step s (.get f h) = some t) :
    t.futures h = some ⟨false, none⟩ ∧ ∀ as u, (machine F P H V E clock).exec t as = some u →
      ∀ g y, u.futures g = some y → y.state ≠ some i := by
  have ht := hs.step hstep
  cases acted hstep with
  | get _ hh' =>
    obtain rfl := Option.some.inj (hh.symm.trans hh')
    refine ⟨Function.update_self _ _ _, fun as u hrun g y hg hy => ?_⟩
    obtain ⟨hu, hkeeps⟩ := ht.exec hrun
    exact hu.not_taken hg hy f (hkeeps.taken i f (Function.update_self _ _ _))

omit [DecidableEq P] [DecidableEq H] in
theorem Inv.quiet (hs : Inv s) (hq : Quiescent s.core) (htask : s.core.task f ≠ .idle) :
    ∃ i w, s.core.task f = .waits i w ∧ (s.core.data i).ready = false := by
  obtain ⟨i, w, hw, hmode⟩ := hs.core.sync.waits hq htask
  exact ⟨i, w, hw, hs.core.justified.linked f i w hw (.inl hmode)⟩

/-- A shared state becomes ready once, everyone is told its outcome, and its future is used once. -/
theorem promise_protocol {clock : Nat} (hs : (machine F P H V E clock).Reachable s) :
    Protocol clock s := by
  have h := reachable_inv hs
  refine ⟨fun f p x value hidle hp hkind => ⟨_, by rw [step, ownerOf_idle hidle hp hkind]; rfl,
      reaches_callOr _ _ _ _ _⟩,
    fun f p x except hidle hp hkind => ⟨_, by rw [step, ownerOf_idle hidle hp hkind]; rfl,
      reaches_callOr _ _ _ _ _⟩,
    fun f p x hidle hp hkind => ⟨_, by rw [step, ownerOf_idle hidle hp hkind]; rfl, invoke_runs s f x⟩,
    fun f i states result hidle hrunning => returns_reaches result hidle hrunning,
    fun f g y timeoutTime hidle hg => ⟨_, by rw [step, futureOf_idle hidle hg]; rfl,
      reaches_callOr _ _ _ _ _⟩,
    fun f g y hidle hg => ⟨_, by rw [step, futureOf_idle hidle hg]; rfl, reaches_get s f g y⟩,
    fun f g y hidle hg => ⟨_, by rw [step, futureOf_idle hidle hg]; rfl, reaches_callOr _ _ _ _ _⟩,
    fun f i w t htask hstep => ?_,
    fun as t hrun => (h.exec hrun).2.ready, h.core.first, h.core.agrees,
    fun f i a x t htask ha hstep hd => ?_, fun f i a x t htask ha hstep hd => ?_,
    fun _ _ _ _ _ _ hb hstep hp hx => overwritten hb hstep hp hx,
    fun i hi => h.owners.held i hi (by simp), fun f i w htask hd hlinked => ?_,
    fun _ _ _ _ _ htask hd hstep => h.ends htask hd hstep, fun hq _ htask => h.quiet hq htask,
    h.owners.once, fun _ _ _ _ _ _ hp hx hstep => h.obtains hp hx hstep,
    fun _ _ _ _ hh hstep => h.used clock hh hstep, fun f g shared t hh hstep => ?_⟩
  · obtain rfl := enter_step htask hstep
    exact ⟨Function.update_self _ _ _, Function.update_eq_self _ _⟩
  · obtain rfl := enter_step htask hstep
    exact h.sets ha hd
  · obtain rfl := enter_step htask hstep
    exact later ha hd
  · exact absurd (hd.symm.trans (h.core.justified.linked f i w htask hlinked)) (by simp)
  · cases acted hstep with
    | get _ hh' =>
      obtain rfl := Option.some.inj (hh.symm.trans hh')
      rfl

/-- Fiber 1 waits for the future of fiber 0, which sets a value, a second one in vain, and overwrites its
promise; then the value is moved away. -/
theorem promise_protocol_value :
    ∃ s : State Nat Nat Nat Nat Unit,
      (s.core.returned.map fun r => r.fiber) = [1, 0, 1, 0, 0] ∧
        (s.core.data 0).outcome = some (.ok 7) ∧ s.futures 0 = some ⟨false, none⟩ ∧ Protocol 0 s := by
  obtain ⟨s, hs, hreturned, houtcome, hfuture⟩ : ∃ s, (machine Nat Nat Nat Nat Unit 0).exec (.initial 0)
      [.newOwner 0 .promise, .getFuture 0 0 0, .wait 1 0 (some 5), .run (.enter 1), .run (.check 1),
        .setValue 0 0 7, .run (.enter 0), .setValue 0 0 8, .run (.enter 0), .run (.resume 1),
        .run (.check 1), .newOwner 1 .promise, .moveAssign 0 0 1, .run (.enter 0), .get 1 0,
        .run (.enter 1), .run (.check 1)] = some s ∧
      (s.core.returned.map fun r => r.fiber) = [1, 0, 1, 0, 0] ∧
        (s.core.data 0).outcome = some (.ok 7) ∧ s.futures 0 = some ⟨false, none⟩ :=
    ⟨_, rfl, rfl, rfl, rfl⟩
  exact ⟨s, hreturned, houtcome, hfuture, promise_protocol (Machine.reachable_of_exec hs)⟩

end Dumbo.Fiber.Promise
