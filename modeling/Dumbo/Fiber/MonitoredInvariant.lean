import Dumbo.Fiber.ConditionAside
import Dumbo.Fiber.Monitored

/-!
# The fibers of objects with a mutex and a condition variable
-/

namespace Dumbo.Fiber

open Transition

/-! ### Where a fiber is in its call -/

namespace Monitored

variable {F I D A L R : Type*}

inductive Place (m : Methods D A L R) (cv : ConditionVariable.State F I I) (f : F) : Task I A L → Prop
  | idle : cv.mode f = .outside → cv.phase f = .idle → Place m cv f .idle
  | holds {i a} : cv.mode f = .outside → cv.phase f = .idle → cv.sync.owner i = some f →
      Place m cv f (.enters i a)
  | locks {i a} : (cv.mode f).call = some (.lock i) → Place m cv f (.enters i a)
  | checks {i l timeout} : cv.mode f = .outside → cv.phase f = .pred (m.waitCall i l) timeout →
      Place m cv f (.waits i l)
  | waits {i l} : (cv.mode f).call = some (.wait (m.waitCall i l)) → Place m cv f (.waits i l)
  | relocks {i l timeout} : (cv.mode f).call = some (.relock (m.waitCall i l) timeout) →
      Place m cv f (.waits i l)

variable {m : Methods D A L R} {cv cv' : ConditionVariable.State F I I} {f g : F} {task : Task I A L}

theorem outside_iff {mode : Mode (SyncCall I I)} : mode = .outside ↔ mode.call = none := by
  cases mode <;> simp [Mode.call]

theorem Place.aside (h : Place m cv f task) (ha : ConditionVariable.Aside cv cv' f) :
    Place m cv' f task := by
  cases h with
  | idle hmode hphase =>
    rw [outside_iff, ← ha.call, ← outside_iff] at hmode
    exact .idle hmode (ha.phase.trans hphase)
  | holds hmode hphase howner =>
    rw [outside_iff, ← ha.call, ← outside_iff] at hmode
    exact .holds hmode (ha.phase.trans hphase) (ha.kept _ howner)
  | locks hcall => exact .locks (ha.call.trans hcall)
  | checks hmode hphase =>
    rw [outside_iff, ← ha.call, ← outside_iff] at hmode
    exact .checks hmode (ha.phase.trans hphase)
  | waits hcall => exact .waits (ha.call.trans hcall)
  | relocks hcall => exact .relocks (ha.call.trans hcall)

theorem Place.of_call (h : Place m cv f task) {op : SyncCall I I} (hcall : (cv.mode f).call = some op) :
    (∃ i a, task = .enters i a ∧ op = .lock i) ∨
      ∃ i l, task = .waits i l ∧
        (op = .wait (m.waitCall i l) ∨ ∃ timeout, op = .relock (m.waitCall i l) timeout) := by
  have hnone : cv.mode f ≠ .outside := by
    rw [Ne, outside_iff, hcall]
    simp
  cases h with
  | idle hmode | holds hmode | checks hmode => exact absurd hmode hnone
  | locks h => exact .inl ⟨_, _, rfl, Option.some.inj (hcall.symm.trans h)⟩
  | waits h => exact .inr ⟨_, _, rfl, .inl (Option.some.inj (hcall.symm.trans h))⟩
  | relocks h => exact .inr ⟨_, _, rfl, .inr ⟨_, Option.some.inj (hcall.symm.trans h)⟩⟩

theorem Place.object (h : Place m cv f task) {op : SyncCall I I} {i : I}
    (hcall : (cv.mode f).call = some op) (hop : Wait.queue op = some (.mutex i)) :
    task.object = some i := by
  rcases h.of_call hcall with ⟨j, a, rfl, rfl⟩ | ⟨j, l, rfl, rfl | ⟨timeout, rfl⟩⟩
  · simpa [Wait.queue, Task.object] using hop
  · simp [Wait.queue] at hop
  · simpa [Wait.queue, Methods.waitCall, Task.object] using hop

variable [DecidableEq F] [DecidableEq I]

structure Inv (m : Methods D A L R) (s : State F I D A L R) : Prop where
  /-- the condition variables and mutexes are used as they may be -/
  cv : ∃ clock, (ConditionVariable.machine F I I clock).Reachable s.cv
  place : ∀ f, Place m s.cv f (s.task f)
  owner : ∀ f i, s.cv.sync.owner i = some f → (s.task f).object = some i

variable {s t : State F I D A L R} {i : I} {a : A} {l : L} {timeout : Bool}

theorem Inv.sync (h : Inv m s) : ConditionVariable.Inv s.cv :=
  ConditionVariable.reachable_inv h.cv.choose_spec

theorem Inv.reachable (h : Inv m s) {b : ConditionVariable.Action F I I}
    {cv : ConditionVariable.State F I I} (hs : ConditionVariable.step s.cv b = some cv) :
    ∃ clock, (ConditionVariable.machine F I I clock).Reachable cv :=
  h.cv.imp fun _ hr => .step hr trivial hs

theorem Inv.initial (data : I → D) (clock : Nat) : Inv m (.initial data clock : State F I D A L R) :=
  ⟨⟨clock, .start⟩, fun _ => .idle rfl rfl, fun _ _ h => absurd h (by
    simp [State.initial, ConditionVariable.State.initial, Sync.initial])⟩

theorem Inv.change (h : Inv m s) (f : F)
    (hcv : ∃ clock, (ConditionVariable.machine F I I clock).Reachable t.cv)
    (haside : ∀ g, f ≠ g → ConditionVariable.Aside s.cv t.cv g) (htask : ∀ g, f ≠ g → t.task g = s.task g)
    (hplace : Place m t.cv f (t.task f))
    (howner : ∀ i, t.cv.sync.owner i = some f → (t.task f).object = some i) : Inv m t := by
  refine ⟨hcv, fun g => ?_, fun g i hi => ?_⟩
  · by_cases hg : f = g
    · exact hg ▸ hplace
    · rw [htask g hg]
      exact (h.place g).aside (haside g hg)
  · by_cases hg : f = g
    · subst hg
      exact howner i hi
    · rw [htask g hg]
      rcases (haside g hg).handed i hi with hmine | ⟨op, hcall, hop⟩
      · exact h.owner g i hmine
      · exact (h.place g).object hcall hop

theorem Inv.aside (h : Inv m s) {cv : ConditionVariable.State F I I}
    (hcv : ∃ clock, (ConditionVariable.machine F I I clock).Reachable cv)
    (haside : ∀ g, ConditionVariable.Aside s.cv cv g) : Inv m { s with cv := cv } := by
  refine ⟨hcv, fun g => (h.place g).aside (haside g), fun g i hi => ?_⟩
  rcases (haside g).handed i hi with hmine | ⟨op, hcall, hop⟩
  · exact h.owner g i hmine
  · exact (h.place g).object hcall hop

/-! ### The steps of a call -/

theorem Inv.idle_of_task (h : Inv m s) (htask : s.task f = .idle) :
    s.cv.idle f = true ∧ ∀ i, s.cv.sync.owner i ≠ some f := by
  refine ⟨?_, fun i howner => ?_⟩
  · have hplace := h.place f
    rw [htask] at hplace
    cases hplace with
    | idle hmode hphase => simp [ConditionVariable.State.idle, hmode, hphase]
  · have hobject := h.owner f i howner
    rw [htask] at hobject
    exact absurd hobject (by simp [Task.object])

theorem place_lock (a : A) (hidle : cv.idle f = true) (hnot : cv.sync.owner i ≠ some f) :
    Place m (cv.lock f i).count f (.enters i a) := by
  obtain ⟨hmode, hphase⟩ := ConditionVariable.Inv.outside_of_idle hidle
  rw [ConditionVariable.State.lock, if_neg hnot]
  split_ifs with hfree
  · refine .holds hmode hphase ?_
    show (cv.sync.take i f).owner i = some f
    rw [Sync.take_owner, Function.update_self]
  · refine .locks ?_
    rw [show (ConditionVariable.State.count { cv with sync := cv.sync.park f (.lock i) }).mode f =
      .suspended (.lock i) from Function.update_self _ _ _]
    rfl

theorem owner_lock {j : I} (hj : (cv.lock f i).sync.owner j = some f) :
    j = i ∨ cv.sync.owner j = some f := by
  rw [ConditionVariable.State.lock] at hj
  split_ifs at hj
  · exact .inr hj
  · by_cases hji : j = i
    · exact .inl hji
    · rw [Sync.take_owner, Function.update_of_ne hji] at hj
      exact .inr hj
  · exact .inr hj

theorem Inv.call (h : Inv m s) (htask : s.task f = .idle) (i : I) (a : A) : Inv m (s.call f i a) := by
  obtain ⟨hidle, hnone⟩ := h.idle_of_task htask
  have hstep : ConditionVariable.step s.cv (.lock f i) = some (s.cv.lock f i).count := by
    simp [ConditionVariable.step, ConditionVariable.act, hidle]
  have hself : (s.call f i a).task f = .enters i a := Function.update_self _ _ _
  refine h.change f (h.reachable hstep) (fun g hg => (ConditionVariable.Aside.lock hg i).count)
    (fun g hg => Function.update_of_ne hg.symm _ _) ?_ fun j hj => ?_
  · rw [hself]
    exact place_lock a hidle (hnone i)
  · rw [hself]
    rcases owner_lock hj with rfl | hj
    · rfl
    · exact absurd hj (hnone j)

theorem unlock_self (h : ConditionVariable.Inv cv) (hidle : cv.idle f = true)
    (howner : cv.sync.owner i = some f) (hothers : ∀ j, cv.sync.owner j = some f → j = i) :
    (cv.unlock f i).count.idle f = true ∧ ∀ j, (cv.unlock f i).sync.owner j ≠ some f := by
  obtain ⟨hmode, hphase⟩ := ConditionVariable.Inv.outside_of_idle hidle
  rw [ConditionVariable.State.unlock, if_neg (not_not.mpr howner)]
  rcases h.sync.release_fiber i f with ⟨hsame, hnot⟩ | ⟨op, hm, _, _, _⟩
  · refine ⟨?_, fun j hj => ?_⟩
    · have hlast : (ConditionVariable.State.count { cv with sync := cv.sync.release i }).mode f = .outside :=
        hsame.trans hmode
      have hphase' : (ConditionVariable.State.count { cv with sync := cv.sync.release i }).phase f = .idle :=
        hphase
      simp [ConditionVariable.State.idle, hlast, hphase']
    · by_cases hji : j = i
      · exact hnot (hji ▸ hj)
      · rw [Sync.release_owner, Function.update_of_ne hji] at hj
        exact hji (hothers j hj)
  · rw [show cv.sync.fibers.mode f = .outside from hmode] at hm
    simp at hm

/-- The fiber that owns the mutex of its object goes on from a state in which it has ended its wait. -/
structure Ends (s u : State F I D A L R) (f : F) (i : I) : Prop where
  cv : ∃ clock, (ConditionVariable.machine F I I clock).Reachable u.cv
  aside : ∀ g, f ≠ g → ConditionVariable.Aside s.cv u.cv g
  task : u.task = s.task
  idle : u.cv.idle f = true
  owner : u.cv.sync.owner i = some f
  object : ∀ j, u.cv.sync.owner j = some f → j = i

variable {u : State F I D A L R}

theorem Ends.unlocked (h : Ends s u f i) :
    (∃ clock, (ConditionVariable.machine F I I clock).Reachable (u.cv.unlock f i).count) ∧
      (∀ g, f ≠ g → ConditionVariable.Aside s.cv (u.cv.unlock f i).count g) ∧
      (u.cv.unlock f i).count.idle f = true ∧ ∀ j, (u.cv.unlock f i).sync.owner j ≠ some f := by
  have hstep : ConditionVariable.step u.cv (.unlock f i) = some (u.cv.unlock f i).count := by
    simp [ConditionVariable.step, ConditionVariable.act, h.idle]
  have hinv := ConditionVariable.reachable_inv h.cv.choose_spec
  refine ⟨h.cv.imp fun _ hr => .step hr trivial hstep, fun g hg => ?_,
    unlock_self hinv h.idle h.owner h.object⟩
  exact (h.aside g hg).trans (ConditionVariable.Aside.unlock hinv hg i).count

theorem Inv.exit (h : Inv m s) (hu : Ends s u f i) (r : R) : Inv m (u.exit f i r) := by
  obtain ⟨hcv, haside, hidle, hnone⟩ := hu.unlocked
  obtain ⟨hmode, hphase⟩ := ConditionVariable.Inv.outside_of_idle hidle
  have hself : (u.exit f i r).task f = .idle := Function.update_self _ _ _
  refine h.change f hcv haside (fun g hg => ?_) ?_ fun j hj => absurd hj (hnone j)
  · exact (Function.update_of_ne hg.symm _ _).trans (congrFun hu.task g)
  · rw [hself]
    exact .idle hmode hphase

theorem Inv.again (h : Inv m s) (hu : Ends s u f i) (a : A) :
    Inv m ({ u with cv := (u.cv.unlock f i).count }.call f i a) := by
  obtain ⟨hcv, haside, hidle, hnone⟩ := hu.unlocked
  have hstep : ConditionVariable.step (u.cv.unlock f i).count (.lock f i) =
      some ((u.cv.unlock f i).count.lock f i).count := by
    simp [ConditionVariable.step, ConditionVariable.act, hidle]
  have hself : ({ u with cv := (u.cv.unlock f i).count }.call f i a).task f = .enters i a :=
    Function.update_self _ _ _
  refine h.change f (hcv.imp fun _ hr => .step hr trivial hstep)
    (fun g hg => (haside g hg).trans (ConditionVariable.Aside.lock hg i).count) (fun g hg => ?_) ?_
    fun j hj => ?_
  · exact (Function.update_of_ne hg.symm _ _).trans (congrFun hu.task g)
  · rw [hself]
    exact place_lock a hidle (hnone i)
  · rw [hself]
    rcases owner_lock hj with rfl | hj
    · rfl
    · exact absurd hj (hnone j)

theorem Inv.notifyAll (h : Inv m s) (i : I) : Inv m (s.notifyAll i) := by
  have hstep : ConditionVariable.step s.cv (.notifyAll i) = some (s.cv.notifyAll i).count := rfl
  exact h.aside (h.reachable hstep) fun g => (ConditionVariable.Aside.notifyAll h.sync i g).count

theorem Inv.setData (h : Inv m s) (i : I) (d : D) : Inv m (s.setData i d) := ⟨h.cv, h.place, h.owner⟩

/-- A fiber that is not in a wait queue any more owns the mutex. -/
theorem Inv.holds (h : Inv m s) (htask : s.task f = .enters i a) (hidle : s.cv.idle f = true) :
    s.cv.sync.owner i = some f := by
  have hplace := h.place f
  rw [htask] at hplace
  cases hplace with
  | holds _ _ howner => exact howner
  | locks hcall =>
    rw [(ConditionVariable.Inv.outside_of_idle hidle).1] at hcall
    exact absurd hcall (by simp [Mode.call])

theorem Inv.checks (h : Inv m s) {w : WaitCall I I} (htask : s.task f = .waits i l)
    (hphase : s.cv.phase f = .pred w timeout) :
    w = m.waitCall i l ∧ s.cv.mode f = .outside ∧ s.cv.sync.owner i = some f := by
  have hfiber := h.sync.fibers f
  have hout := hfiber.outside_of_pred hphase
  have howner := (hfiber.pred hphase).1
  have hplace := h.place f
  rw [htask] at hplace
  cases hplace with
  | checks _ hp =>
    rw [hphase, ConditionVariable.Phase.pred.injEq] at hp
    obtain ⟨rfl, -⟩ := hp
    exact ⟨rfl, hout, howner⟩
  | waits hcall | relocks hcall =>
    rw [hout] at hcall
    exact absurd hcall (by simp [Mode.call])

theorem Inv.object_of_owner (h : Inv m s) (hobject : (s.task f).object = some i) {j : I}
    (hj : s.cv.sync.owner j = some f) : j = i :=
  Option.some.inj ((h.owner f j hj).symm.trans hobject)

theorem Inv.ends_enter (h : Inv m s) (htask : s.task f = .enters i a) (hidle : s.cv.idle f = true)
    (d : D) : Ends s (s.setData i d) f i :=
  ⟨h.cv, fun _ _ => .of_same rfl rfl fun _ => Iff.rfl, rfl, hidle, h.holds htask hidle,
    fun _ hj => h.object_of_owner (by rw [htask]; rfl) hj⟩

theorem Inv.enter (h : Inv m s) (htask : s.task f = .enters i a) (hidle : s.cv.idle f = true) :
    Inv m (s.enter m f i a) := by
  have hends := h.ends_enter htask hidle (m.enter a (s.data i)).1
  rw [State.enter]
  cases hout : (m.enter a (s.data i)).2 with
  | returns r notify =>
    cases notify with
    | false => exact h.exit hends r
    | true => exact (h.exit hends r).notifyAll i
  | calls b => exact h.again hends b
  | waits l =>
    have howner := h.holds htask hidle
    have hstep : ConditionVariable.step s.cv (.wait f (m.waitCall i l)) =
        some (s.cv.setPhase f (.pred (m.waitCall i l) false)).count := by
      simp [ConditionVariable.step, ConditionVariable.act, hidle, howner, Methods.waitCall]
    refine h.change f (h.reachable hstep) (fun g hg => ?_)
      (fun g hg => Function.update_of_ne hg.symm _ _) ?_ fun j hj => ?_
    · exact .of_same rfl (Function.update_of_ne hg.symm _ _) fun _ => Iff.rfl
    · show Place m _ f (Function.update s.task f _ f)
      rw [Function.update_self]
      exact .checks (ConditionVariable.Inv.outside_of_idle hidle).1 (Function.update_self _ _ _)
    · show (Function.update s.task f _ f).object = _
      rw [Function.update_self, h.object_of_owner (by rw [htask]; rfl) hj]
      rfl

theorem block_self (h : ConditionVariable.Inv cv) {w : WaitCall I I} (hf : cv.mode f = .outside)
    (howner : cv.sync.owner w.lt = some f) (hothers : ∀ j, cv.sync.owner j = some f → j = w.lt) :
    (cv.block f w).mode f = .suspended (.wait w) ∧ ∀ j, (cv.block f w).sync.owner j ≠ some f := by
  have hparked : (cv.sync.park f (.wait w)).Ok := h.sync.park_condition hf rfl
  have hself : (cv.sync.park f (.wait w)).fibers.mode f = .suspended (.wait w) :=
    Function.update_self _ _ _
  rw [ConditionVariable.State.block, h.sync.waitOn_eq howner (SyncCall.queue_wait w)]
  rcases hparked.release_fiber w.lt f with ⟨hsame, hnot⟩ | ⟨op, hm, hop, _, _⟩
  · refine ⟨hsame.trans hself, fun j hj => ?_⟩
    by_cases hjw : j = w.lt
    · exact hnot (hjw ▸ hj)
    · rw [Sync.release_owner, Function.update_of_ne hjw] at hj
      exact hjw (hothers j hj)
  · rw [hself] at hm
    obtain rfl : SyncCall.wait w = op := by simpa using hm
    simp [Wait.queue] at hop

theorem Inv.pred_step (hphase : s.cv.phase f = .pred (m.waitCall i l) timeout) (value : Bool) :
    ConditionVariable.step s.cv (.pred f value) =
      some (if value || timeout then s.cv.finish f (m.waitCall i l) value
        else s.cv.block f (m.waitCall i l)).count := by
  simp [ConditionVariable.step, ConditionVariable.act, hphase]

theorem Inv.ends_check (h : Inv m s) (htask : s.task f = .waits i l)
    (hphase : s.cv.phase f = .pred (m.waitCall i l) timeout) {value : Bool}
    (hvalue : (value || timeout) = true) (d : D) :
    Ends s { s.setData i d with cv := (s.cv.finish f (m.waitCall i l) value).count } f i := by
  obtain ⟨_, hout, howner⟩ := h.checks htask hphase
  have hstep := Inv.pred_step hphase value
  rw [if_pos hvalue] at hstep
  refine ⟨h.reachable hstep, fun g hg => ?_, rfl, ?_, howner, fun j hj => ?_⟩
  · exact .of_same rfl (Function.update_of_ne hg.symm _ _) fun _ => Iff.rfl
  · have hidle : (s.cv.finish f (m.waitCall i l) value).count.phase f = .idle :=
      Function.update_self _ _ _
    have hmode : (s.cv.finish f (m.waitCall i l) value).count.mode f = .outside := hout
    simp [ConditionVariable.State.idle, hidle, hmode]
  · exact h.object_of_owner (by rw [htask]; rfl) hj

theorem Inv.check (h : Inv m s) {w : WaitCall I I} (htask : s.task f = .waits i l)
    (hphase : s.cv.phase f = .pred w timeout) : Inv m (s.check m f i l timeout) := by
  obtain ⟨rfl, hout, howner⟩ := h.checks htask hphase
  rw [State.check]
  split_ifs with hvalue
  · exact h.exit (h.ends_check htask hphase hvalue _) _
  · have hobject : ∀ j, s.cv.sync.owner j = some f → j = i := fun j hj =>
      h.object_of_owner (by rw [htask]; rfl) hj
    have hstep := Inv.pred_step hphase (m.pred l (s.data i))
    rw [if_neg hvalue] at hstep
    obtain ⟨hmode, hnone⟩ := block_self h.sync (w := m.waitCall i l) hout howner hobject
    refine h.change f (h.reachable hstep)
      (fun g hg => (ConditionVariable.Aside.block h.sync hg hout howner).count)
      (fun _ _ => rfl) ?_ fun j hj => absurd hj (hnone j)
    show Place m _ f (s.task f)
    rw [htask]
    refine .waits ?_
    rw [show ((s.cv.block f (m.waitCall i l)).count).mode f = _ from hmode]
    rfl

omit [DecidableEq I] in
theorem relocked_phase (cv : ConditionVariable.State F I I) (f : F) (i : I) (l : L) (timeout : Bool) :
    (cv.relocked f (m.waitCall i l) timeout).phase f = .pred (m.waitCall i l) timeout :=
  Function.update_self _ _ _

theorem relock_self (timeout : Bool) (hf : cv.mode f = .outside)
    (hnot : cv.sync.owner (m.waitCall i l).lt ≠ some f) :
    Place m (cv.relock f (m.waitCall i l) timeout).count f (.waits i l) ∧
      ∀ j, (cv.relock f (m.waitCall i l) timeout).sync.owner j = some f →
        j = i ∨ cv.sync.owner j = some f := by
  rw [ConditionVariable.State.relock, if_neg hnot]
  split_ifs with hfree
  · refine ⟨.checks hf (relocked_phase _ f i l timeout), fun j hj => ?_⟩
    by_cases hji : j = (m.waitCall i l).lt
    · exact .inl hji
    · rw [ConditionVariable.State.relocked_sync, Sync.take_owner, Function.update_of_ne hji] at hj
      exact .inr hj
  · have hmode : (ConditionVariable.State.count { cv with
        sync := cv.sync.park f (.relock (m.waitCall i l) timeout) }).mode f =
        .suspended (.relock (m.waitCall i l) timeout) := Function.update_self _ _ _
    exact ⟨.relocks (congrArg Mode.call hmode), fun j hj => .inr hj⟩

/-- A fiber that is resumed owns the mutex of its object, or waits for it. -/
theorem Inv.resume (h : Inv m s) (hs : ConditionVariable.step s.cv (.resume f) = some cv) :
    Inv m { s with cv := cv } := by
  have hreach := h.reachable hs
  have haside : ∀ g, f ≠ g → ConditionVariable.Aside s.cv cv g := fun g hg => .resume hs hg
  obtain ⟨u, hact, rfl⟩ := Option.map_eq_some_iff.mp hs
  suffices hself : Place m u.count f (s.task f) ∧ ∀ j, u.sync.owner j = some f →
      (s.task f).object = some j ∨ s.cv.sync.owner j = some f by
    refine h.change f hreach haside (fun _ _ => rfl) hself.1 fun j hj => ?_
    exact (hself.2 j hj).elim id (h.owner f j)
  cases ConditionVariable.acted hact with
  | @resumeWait f w hmode =>
    have hcall : (s.cv.mode f).call = some (.wait w) := by
      rcases hmode with hmode | hmode <;> simp [hmode, Mode.call]
    obtain ⟨i, l, htask, rfl⟩ : ∃ i l, s.task f = .waits i l ∧ w = m.waitCall i l := by
      rcases (h.place f).of_call hcall with ⟨_, _, _, hop⟩ | ⟨i, l, htask, hop | ⟨_, hop⟩⟩
      · exact absurd hop (by simp)
      · exact ⟨i, l, htask, by simpa using hop⟩
      · exact absurd hop (by simp)
    obtain ⟨hplace, howner⟩ := relock_self (!s.cv.sync.fibers.inTime (.wait (m.waitCall i l)))
      (show (s.cv.unlink f).mode f = .outside from Function.update_self _ _ _) (h.sync.found hcall).1
    rw [htask]
    refine ⟨hplace, fun j hj => ?_⟩
    rcases howner j hj with rfl | hj
    · exact .inl rfl
    · exact .inr hj
  | @resumeLock f mtx hmode =>
    have hcall : (s.cv.mode f).call = some (.lock mtx) := by rw [hmode]; rfl
    obtain ⟨a, htask⟩ : ∃ a, s.task f = .enters mtx a := by
      rcases (h.place f).of_call hcall with ⟨i, a, htask, hop⟩ | ⟨_, _, _, hop | ⟨_, hop⟩⟩
      · rw [SyncCall.lock.injEq] at hop
        exact ⟨a, hop ▸ htask⟩
      · exact absurd hop (by simp)
      · exact absurd hop (by simp)
    have hidle : s.cv.phase f = .idle := (h.sync.fibers f).idle (by simp [hmode])
    rw [htask]
    exact ⟨.holds (Function.update_self _ _ _) hidle (h.sync.sync.handed mtx f _ hmode rfl),
      fun _ hj => .inr hj⟩
  | @resumeRelock f w timeout hmode =>
    have hcall : (s.cv.mode f).call = some (.relock w timeout) := by rw [hmode]; rfl
    obtain ⟨i, l, htask, rfl⟩ : ∃ i l, s.task f = .waits i l ∧ w = m.waitCall i l := by
      rcases (h.place f).of_call hcall with ⟨_, _, _, hop⟩ | ⟨i, l, htask, hop | ⟨_, hop⟩⟩
      · exact absurd hop (by simp)
      · exact absurd hop (by simp)
      · rw [SyncCall.relock.injEq] at hop
        exact ⟨i, l, htask, hop.1⟩
    have houtside : (s.cv.pick f).mode f = .outside := Function.update_self _ _ _
    rw [htask]
    refine ⟨.checks houtside (relocked_phase _ f i l timeout), fun j hj => .inr ?_⟩
    rw [ConditionVariable.State.relocked_sync] at hj
    exact hj

theorem Inv.step {b : Action F I A} (h : Inv m s) (hs : step m s b = some t) : Inv m t := by
  cases acted hs with
  | call htask => exact h.call htask _ _
  | enter htask hidle => exact h.enter htask hidle
  | check htask hphase => exact h.check htask hphase
  | resume hcv => exact h.resume hcv
  | expire hcv => exact h.aside (h.reachable hcv) fun g => ConditionVariable.Aside.expire hcv g
  | tick hcv => exact h.aside (h.reachable hcv) fun g => ConditionVariable.Aside.tick hcv g

theorem reachable_inv {data : I → D} {clock : Nat} (hs : (machine F m data clock).Reachable s) :
    Inv m s :=
  hs.invariant (Inv.initial data clock) fun _ _ _ h ht => h.step ht

end Monitored

end Dumbo.Fiber
