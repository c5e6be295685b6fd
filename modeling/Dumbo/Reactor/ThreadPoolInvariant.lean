import Dumbo.Reactor.ThreadPool

/-!
# The two lists of a thread pool

What holds in the runs in which the stop meets no worker that is still to come back: `try_run` takes no
stopped worker, `release` puts none back behind the stop, and the pool is destroyed when every message has
been released.
-/

namespace Dumbo.Reactor.ThreadPool

open Transition

variable {W T : Type*}

/-- What is known of a message whose worker is at `x`. -/
def Phase (ran data : Option W) (task : T) (w : W) : Worker T → Prop
  | .starting | .joined => False
  | .given t | .lost t => t = task
  | .processed t => t = task ∧ ran = some w
  | .tagged t => t = task ∧ ran = some w ∧ data = some w
  | .idle => ran = some w ∧ data = some w

/-- The busy workers and their messages. -/
structure Assigned (s : State W T) : Prop where
  busy : ∀ w, w ∈ s.busyWorkers ↔ ∃ task, s.holder task = some w
  injective : ∀ t t' w, s.holder t = some w → s.holder t' = some w → t = t'
  phase : ∀ task w, s.holder task = some w →
    ∃ x, s.worker w = some x ∧ Phase (s.ran task) (s.data task) task w x
  finished : ∀ task, task ∈ s.finished ↔ ∃ w, s.holder task = some w ∧ s.worker w = some .idle
  nodup : s.finished.Nodup

/-- What a free worker does. -/
def State.Rests (s : State W T) (w : W) : Prop :=
  s.stopped = true ∧ s.worker w = some .joined ∨
    s.stopped = false ∧ (s.worker w = some .starting ∨ s.worker w = some .idle)

structure Inv (minSize maxSize : Nat) (s : State W T) : Prop where
  fault : s.fault = none
  nodup : (s.freeWorkers ++ s.busyWorkers).Nodup
  live : ∀ w, w ∈ s.freeWorkers ++ s.busyWorkers ↔ s.worker w ≠ none
  free_le : s.freeWorkers.length ≤ minSize
  busy_le : s.busyWorkers.length ≤ maxSize
  rests : ∀ w ∈ s.freeWorkers, s.Rests w
  assigned : Assigned s
  destroyed : s.destroyed = true → s.freeWorkers = [] ∧ s.busyWorkers = []

def StepOk (minSize maxSize : Nat) (s : State W T) : Action W T → Prop
  | .tryRun _ _ _ => s.stopped = true → s.freeWorkers = [] ∨ maxSize ≤ s.busyWorkers.length
  | .release _ => s.stopped = true → minSize ≤ s.freeWorkers.length
  | .work _ => True
  | .stopWorkers => ∀ w ∈ s.freeWorkers, s.worker w ≠ some .starting
  | .destroy => s.finished = []

instance [DecidableEq W] [DecidableEq T] (minSize maxSize : Nat) (s : State W T) (a : Action W T) :
    Decidable (StepOk minSize maxSize s a) :=
  match a with
  | .tryRun _ _ _ =>
    inferInstanceAs (Decidable (s.stopped = true → s.freeWorkers = [] ∨ maxSize ≤ s.busyWorkers.length))
  | .release _ => inferInstanceAs (Decidable (s.stopped = true → minSize ≤ s.freeWorkers.length))
  | .work _ => inferInstanceAs (Decidable True)
  | .stopWorkers =>
    inferInstanceAs (Decidable (∀ w ∈ s.freeWorkers, s.worker w ≠ some .starting))
  | .destroy => inferInstanceAs (Decidable (s.finished = []))

variable [DecidableEq W] [DecidableEq T] {minSize maxSize : Nat} {s t : State W T} {w new : W} {task : T}
  {F : List W} {x : Worker T}

/-! ### The messages -/

omit [DecidableEq W] [DecidableEq T] in
theorem Assigned.frame (h : Assigned s) (hbusy : t.busyWorkers = s.busyWorkers)
    (hholder : t.holder = s.holder) (hran : t.ran = s.ran) (hdata : t.data = s.data)
    (hfinished : t.finished = s.finished) (hworker : ∀ v ∈ s.busyWorkers, t.worker v = s.worker v) :
    Assigned t := by
  have hsame : ∀ task v, s.holder task = some v → t.worker v = s.worker v := fun task v hv =>
    hworker v ((h.busy v).mpr ⟨task, hv⟩)
  refine ⟨?_, ?_, ?_, ?_, hfinished ▸ h.nodup⟩
  · rw [hbusy, hholder]
    exact h.busy
  · rw [hholder]
    exact h.injective
  · intro task v hv
    rw [hholder] at hv
    rw [hsame task v hv, hran, hdata]
    exact h.phase task v hv
  · intro task
    rw [hfinished, hholder, h.finished]
    refine exists_congr fun v => and_congr_right fun hv => ?_
    rw [hsame task v hv]

/-- A message is given to a worker that was not busy. -/
def State.give (s : State W T) (F : List W) (w : W) (x : Worker T) (task : T) : State W T :=
  { s with
    freeWorkers := F
    busyWorkers := s.busyWorkers ++ [w]
    worker := Function.update s.worker w (some x)
    holder := Function.update s.holder task (some w) }

theorem Assigned.give (h : Assigned s) (hw : w ∉ s.busyWorkers) (hnew : s.holder task = none)
    (hx : x = .given task ∨ x = .lost task) : Assigned (s.give F w x task) := by
  have hne : ∀ t v, s.holder t = some v → t ≠ task ∧ v ≠ w := by
    intro t v hv
    constructor
    · intro he
      rw [he, hnew] at hv
      exact absurd hv (by simp)
    · intro he
      exact hw (he ▸ (h.busy v).mpr ⟨t, hv⟩)
  have hholder : ∀ t v, (s.give F w x task).holder t = some v ↔
      s.holder t = some v ∨ t = task ∧ v = w := by
    intro t v
    by_cases ht : t = task
    · rw [ht, hnew, show (s.give F w x task).holder task = some w from Function.update_self _ _ _]
      simp [eq_comm]
    · rw [show (s.give F w x task).holder t = s.holder t from Function.update_of_ne ht _ _]
      simp [ht]
  have hself : (s.give F w x task).worker w = some x := Function.update_self _ _ _
  have hother : ∀ v, v ≠ w → (s.give F w x task).worker v = s.worker v := fun v hv =>
    Function.update_of_ne hv _ _
  refine ⟨fun v => ?_, fun t t' v ht ht' => ?_, fun t v ht => ?_, fun t => ?_, h.nodup⟩
  · show v ∈ s.busyWorkers ++ [w] ↔ _
    rw [List.mem_append, List.mem_singleton, h.busy v]
    constructor
    · rintro (⟨t, ht⟩ | rfl)
      · exact ⟨t, (hholder t v).mpr (.inl ht)⟩
      · exact ⟨task, (hholder task v).mpr (.inr ⟨rfl, rfl⟩)⟩
    · rintro ⟨t, ht⟩
      exact ((hholder t v).mp ht).imp (fun ht => ⟨t, ht⟩) And.right
  · rcases (hholder t v).mp ht with hs | ⟨hs, hv⟩ <;>
      rcases (hholder t' v).mp ht' with hs' | ⟨hs', hv'⟩
    · exact h.injective t t' v hs hs'
    · exact absurd hv' (hne t v hs).2
    · exact absurd hv (hne t' v hs').2
    · rw [hs, hs']
  · rcases (hholder t v).mp ht with ht | ⟨rfl, rfl⟩
    · rw [hother v (hne t v ht).2]
      exact h.phase t v ht
    · refine ⟨x, hself, ?_⟩
      rcases hx with rfl | rfl <;> rfl
  · show t ∈ s.finished ↔ _
    rw [h.finished t]
    constructor
    · rintro ⟨v, hv, hidle⟩
      exact ⟨v, (hholder t v).mpr (.inl hv), (hother v (hne t v hv).2).trans hidle⟩
    · rintro ⟨v, hv, hidle⟩
      rcases (hholder t v).mp hv with hv | ⟨rfl, rfl⟩
      · exact ⟨v, hv, (hother v (hne t v hv).2).symm.trans hidle⟩
      · rw [hself] at hidle
        rcases hx with rfl | rfl <;> exact absurd hidle (by simp)

omit [DecidableEq W] [DecidableEq T] in
theorem Assigned.advance (h : Assigned s) (hheld : s.holder task = some w)
    (hbusy : t.busyWorkers = s.busyWorkers) (hholder : t.holder = s.holder)
    (hself : t.worker w = some x) (hother : ∀ v, v ≠ w → t.worker v = s.worker v)
    (hran : ∀ t', t' ≠ task → t.ran t' = s.ran t') (hdata : ∀ t', t' ≠ task → t.data t' = s.data t')
    (hx : Phase (t.ran task) (t.data task) task w x)
    (hfinished : ∀ t', t' ∈ t.finished ↔ t' ∈ s.finished ∨ t' = task ∧ x = .idle)
    (hrunning : s.worker w ≠ some .idle) (hnodup : t.finished.Nodup) : Assigned t := by
  have hcase : ∀ t' v, s.holder t' = some v → t' = task ∧ v = w ∨ t' ≠ task ∧ v ≠ w := by
    intro t' v hv
    by_cases he : t' = task
    · rw [he, hheld] at hv
      exact .inl ⟨he, (Option.some.inj hv).symm⟩
    · refine .inr ⟨he, fun hvw => he (h.injective t' task w (hvw ▸ hv) hheld)⟩
  refine ⟨?_, ?_, fun t' v hv => ?_, fun t' => ?_, hnodup⟩
  · rw [hbusy, hholder]
    exact h.busy
  · rw [hholder]
    exact h.injective
  · rw [hholder] at hv
    rcases hcase t' v hv with ⟨rfl, rfl⟩ | ⟨ht, hne⟩
    · exact ⟨x, hself, hx⟩
    · rw [hother v hne, hran t' ht, hdata t' ht]
      exact h.phase t' v hv
  · rw [hfinished, h.finished, hholder]
    constructor
    · rintro (⟨v, hv, hidle⟩ | ⟨rfl, rfl⟩)
      · rcases hcase t' v hv with ⟨rfl, rfl⟩ | ⟨-, hne⟩
        · exact absurd hidle hrunning
        · exact ⟨v, hv, (hother v hne).trans hidle⟩
      · exact ⟨w, hheld, hself⟩
    · rintro ⟨v, hv, hidle⟩
      rcases hcase t' v hv with ⟨rfl, rfl⟩ | ⟨-, hne⟩
      · rw [hself] at hidle
        exact .inr ⟨rfl, Option.some.inj hidle⟩
      · exact .inl ⟨v, hv, (hother v hne).symm.trans hidle⟩

theorem Assigned.release (h : Assigned s) (hheld : s.holder task = some w)
    (hnodup : s.busyWorkers.Nodup) (hbusy : t.busyWorkers = s.busyWorkers.erase w)
    (hholder : t.holder = Function.update s.holder task none) (hran : t.ran = s.ran)
    (hdata : t.data = s.data) (hfinished : t.finished = s.finished.erase task)
    (hother : ∀ v, v ≠ w → t.worker v = s.worker v) : Assigned t := by
  have hheld' : ∀ t' v, t.holder t' = some v ↔ s.holder t' = some v ∧ t' ≠ task := by
    intro t' v
    rw [hholder]
    by_cases he : t' = task
    · rw [he, Function.update_self]
      simp
    · rw [Function.update_of_ne he]
      exact ⟨fun hv => ⟨hv, he⟩, And.left⟩
  have hne : ∀ t' v, s.holder t' = some v → (t' ≠ task ↔ v ≠ w) := by
    intro t' v hv
    refine not_congr ⟨fun he => ?_, fun he => h.injective t' task w (he ▸ hv) hheld⟩
    rw [he, hheld] at hv
    exact (Option.some.inj hv).symm
  refine ⟨fun v => ?_, fun t' t'' v ht ht' => ?_, fun t' v hv => ?_, fun t' => ?_, ?_⟩
  · rw [hbusy, hnodup.mem_erase_iff, h.busy v]
    constructor
    · rintro ⟨hv, t', ht⟩
      exact ⟨t', (hheld' t' v).mpr ⟨ht, (hne t' v ht).mpr hv⟩⟩
    · rintro ⟨t', ht⟩
      obtain ⟨ht, hn⟩ := (hheld' t' v).mp ht
      exact ⟨(hne t' v ht).mp hn, t', ht⟩
  · exact h.injective t' t'' v ((hheld' t' v).mp ht).1 ((hheld' t'' v).mp ht').1
  · obtain ⟨hv, hn⟩ := (hheld' t' v).mp hv
    rw [hother v ((hne t' v hv).mp hn), hran, hdata]
    exact h.phase t' v hv
  · rw [hfinished, h.nodup.mem_erase_iff, h.finished]
    constructor
    · rintro ⟨hn, v, hv, hidle⟩
      exact ⟨v, (hheld' t' v).mpr ⟨hv, hn⟩, (hother v ((hne t' v hv).mp hn)).trans hidle⟩
    · rintro ⟨v, hv, hidle⟩
      obtain ⟨hv, hn⟩ := (hheld' t' v).mp hv
      exact ⟨hn, v, hv, (hother v ((hne t' v hv).mp hn)).symm.trans hidle⟩
  · rw [hfinished]
    exact h.nodup.erase _

/-! ### The lists -/

omit [DecidableEq W] [DecidableEq T] in
theorem Inv.not_free (h : Inv minSize maxSize s) (hw : w ∈ s.busyWorkers) : w ∉ s.freeWorkers :=
  fun hfree => List.disjoint_of_nodup_append h.nodup hfree hw

omit [DecidableEq W] [DecidableEq T] in
/-- The worker of a message, where its thread stands. -/
theorem Inv.held (h : Inv minSize maxSize s) (hheld : s.holder task = some w) :
    w ∈ s.busyWorkers ∧ w ∉ s.freeWorkers := by
  have hbusy : w ∈ s.busyWorkers := (h.assigned.busy w).mpr ⟨task, hheld⟩
  exact ⟨hbusy, h.not_free hbusy⟩

omit [DecidableEq W] [DecidableEq T] in
theorem Inv.busy_with (h : Inv minSize maxSize s) (hw : s.worker w = some x)
    (hx : x ≠ .starting ∧ x ≠ .idle ∧ x ≠ .joined) :
    ∃ task, s.holder task = some w ∧ Phase (s.ran task) (s.data task) task w x := by
  have hlive : w ∈ s.freeWorkers ++ s.busyWorkers := (h.live w).mpr (by rw [hw]; simp)
  rcases List.mem_append.mp hlive with hfree | hbusy
  · have hrests := h.rests w hfree
    simp only [State.Rests, hw, Option.some.injEq] at hrests
    rcases hrests with ⟨-, rfl⟩ | ⟨-, rfl | rfl⟩
    · exact absurd rfl hx.2.2
    · exact absurd rfl hx.1
    · exact absurd rfl hx.2.1
  · obtain ⟨task, hheld⟩ := (h.assigned.busy w).mp hbusy
    obtain ⟨y, hy, hphase⟩ := h.assigned.phase task w hheld
    obtain rfl : y = x := Option.some.inj (hy.symm.trans hw)
    exact ⟨task, hheld, hphase⟩

omit [DecidableEq W] [DecidableEq T] in
theorem Inv.starting_free (h : Inv minSize maxSize s) (hw : s.worker w = some .starting) :
    w ∈ s.freeWorkers ∧ s.stopped = false := by
  have hlive : w ∈ s.freeWorkers ++ s.busyWorkers := (h.live w).mpr (by rw [hw]; simp)
  rcases List.mem_append.mp hlive with hfree | hbusy
  · have hrests := h.rests w hfree
    simp only [State.Rests, hw] at hrests
    exact ⟨hfree, by simpa using hrests⟩
  · obtain ⟨task, hheld⟩ := (h.assigned.busy w).mp hbusy
    obtain ⟨y, hy, hphase⟩ := h.assigned.phase task w hheld
    obtain rfl : y = .starting := Option.some.inj (hy.symm.trans hw)
    exact hphase.elim

/-- The worker that `acquire_worker` takes, with the rest of the free list. -/
def State.Takes (s : State W T) (F : List W) (w : W) : Prop :=
  s.freeWorkers = F ++ [w] ∨ s.freeWorkers = [] ∧ F = [] ∧ s.worker w = none

omit [DecidableEq W] [DecidableEq T] in
theorem Inv.takes (h : Inv minSize maxSize s) (htakes : s.Takes F w) :
    w ∉ s.busyWorkers ∧ (F ++ (s.busyWorkers ++ [w])).Nodup ∧ F.length ≤ s.freeWorkers.length ∧
      (∀ v ∈ F, v ∈ s.freeWorkers) ∧
      ∀ v, v ∈ F ++ (s.busyWorkers ++ [w]) ↔ v ∈ s.freeWorkers ++ s.busyWorkers ∨ v = w := by
  have hnodup := h.nodup
  rcases htakes with hfree | ⟨hfree, rfl, hnone⟩
  · rw [hfree, List.append_assoc] at hnodup
    have hperm : (F ++ (s.busyWorkers ++ [w])).Perm (F ++ ([w] ++ s.busyWorkers)) :=
      List.perm_append_comm.append_left F
    refine ⟨fun hbusy => ?_, hperm.nodup_iff.mpr hnodup, ?_, fun v hv => ?_, fun v => ?_⟩
    · refine List.disjoint_of_nodup_append (List.nodup_append.mp hnodup).2.1 ?_ hbusy
      exact List.mem_singleton_self w
    · rw [hfree, List.length_append]
      exact Nat.le_add_right _ _
    · rw [hfree]
      exact List.mem_append_left _ hv
    · rw [hfree]
      simp only [List.mem_append, List.mem_singleton]
      tauto
  · have hbusy : w ∉ s.busyWorkers := fun hbusy =>
      (h.live w).mp (List.mem_append_right _ hbusy) hnone
    rw [hfree] at hnodup
    have hperm : ([w] ++ s.busyWorkers).Perm (s.busyWorkers ++ [w]) := List.perm_append_comm
    refine ⟨hbusy, ?_, Nat.zero_le _, fun v hv => absurd hv (by simp), fun v => ?_⟩
    · exact hperm.nodup_iff.mp (List.nodup_cons.mpr ⟨hbusy, hnodup⟩)
    · rw [hfree]
      simp only [List.nil_append, List.mem_append, List.mem_singleton]

theorem Inv.give (h : Inv minSize maxSize s) (htakes : s.Takes F w)
    (hroom : s.busyWorkers.length < maxSize) (hnew : s.holder task = none)
    (hx : x = .given task ∨ x = .lost task) (hlive : s.destroyed = false) :
    Inv minSize maxSize (s.give F w x task) := by
  obtain ⟨hbusy, hnodup, hlength, hsub, hmem⟩ := h.takes htakes
  have hother : ∀ v, v ≠ w → (s.give F w x task).worker v = s.worker v := fun v hv =>
    Function.update_of_ne hv _ _
  refine ⟨h.fault, hnodup, fun v => ?_, Nat.le_trans hlength h.free_le, ?_, fun v hv => ?_,
    h.assigned.give hbusy hnew hx, fun hd => absurd (hlive.symm.trans hd) (by simp)⟩
  · refine (hmem v).trans ?_
    by_cases hv : v = w
    · rw [hv, show (s.give F w x task).worker w = some x from Function.update_self _ _ _]
      simp
    · rw [hother v hv, h.live v]
      exact ⟨fun hl => hl.resolve_right hv, .inl⟩
  · show (s.busyWorkers ++ [w]).length ≤ maxSize
    rw [List.length_append]
    exact hroom
  · have hne : v ≠ w := by
      rintro rfl
      refine List.disjoint_of_nodup_append hnodup hv (List.mem_append_right _ ?_)
      exact List.mem_singleton_self v
    have hrests := h.rests v (hsub v hv)
    rw [State.Rests, ← hother v hne] at hrests
    exact hrests

theorem Inv.tryRun_eq (h : Inv minSize maxSize s) (hroom : s.busyWorkers.length < maxSize)
    (hnew : s.worker new = none) (hok : s.stopped = true → s.freeWorkers = []) (task : T)
    (started : Bool) :
    ∃ F w x, s.Takes F w ∧ s.tryRun maxSize task new started = (true, s.give F w x task) ∧
      (x = .given task ∨ x = .lost task) := by
  rcases List.eq_nil_or_concat s.freeWorkers with hfree | ⟨F, w, hfree⟩
  · have hlast : s.freeWorkers.getLast? = none := by rw [hfree]; rfl
    cases started with
    | true =>
      refine ⟨[], new, .given task, .inr ⟨hfree, rfl, hnew⟩, ?_, .inl rfl⟩
      rw [State.tryRun, if_pos hroom, State.acquireWorker, hlast]
      simp [State.run, State.setWorker, State.give, hfree]
    | false =>
      refine ⟨[], new, .lost task, .inr ⟨hfree, rfl, hnew⟩, ?_, .inr rfl⟩
      rw [State.tryRun, if_pos hroom, State.acquireWorker, hlast]
      simp [State.run, State.setWorker, State.give, hfree]
  · rw [List.concat_eq_append] at hfree
    have hlast : s.freeWorkers.getLast? = some w := by rw [hfree, List.getLast?_append]; rfl
    have hdrop : s.freeWorkers.dropLast = F := by rw [hfree]; exact List.dropLast_concat
    have hrests := h.rests w (by rw [hfree]; simp)
    have hrun : s.stopped = false := by
      refine Bool.eq_false_iff.mpr fun hstop => ?_
      have hempty := hok hstop
      rw [hfree] at hempty
      exact absurd hempty (by simp)
    rcases hrests with ⟨hstop, -⟩ | ⟨-, hw | hw⟩
    · exact absurd (hstop.symm.trans hrun) (by simp)
    · refine ⟨F, w, .lost task, .inl hfree, ?_, .inr rfl⟩
      rw [State.tryRun, if_pos hroom, State.acquireWorker, hlast]
      simp [State.run, State.setWorker, State.give, hdrop, hw]
    · refine ⟨F, w, .given task, .inl hfree, ?_, .inl rfl⟩
      rw [State.tryRun, if_pos hroom, State.acquireWorker, hlast]
      simp [State.run, State.setWorker, State.give, hdrop, hw]

/-- What `release` leaves of a worker that goes back to the free ones. -/
def State.putBack (s : State W T) (w : W) (task : T) : State W T :=
  { s with
    busyWorkers := s.busyWorkers.erase w
    freeWorkers := s.freeWorkers ++ [w]
    finished := s.finished.erase task
    holder := Function.update s.holder task none }

/-- What `release` leaves of a worker that it stops and deletes. -/
def State.discard (s : State W T) (w : W) (task : T) : State W T :=
  { s with
    busyWorkers := s.busyWorkers.erase w
    worker := Function.update s.worker w none
    finished := s.finished.erase task
    holder := Function.update s.holder task none }

omit [DecidableEq W] [DecidableEq T] in
theorem Inv.finished_worker (h : Inv minSize maxSize s) (hf : task ∈ s.finished) :
    ∃ w, s.holder task = some w ∧ s.worker w = some .idle ∧ s.ran task = some w ∧
      s.data task = some w ∧ w ∈ s.busyWorkers := by
  obtain ⟨w, hheld, hidle⟩ := (h.assigned.finished task).mp hf
  obtain ⟨x, hx, hphase⟩ := h.assigned.phase task w hheld
  obtain rfl : x = .idle := Option.some.inj (hx.symm.trans hidle)
  exact ⟨w, hheld, hidle, hphase.1, hphase.2, (h.held hheld).1⟩

theorem release_eq (hidle : s.worker w = some .idle) (hdata : s.data task = some w)
    (hbusy : w ∈ s.busyWorkers) : s.release minSize task =
      if s.freeWorkers.length < minSize then s.putBack w task else s.discard w task := by
  have hjoined : ∀ v : W → Option (Worker T), Function.update v w (some .joined) w = some .joined :=
    fun v => Function.update_self _ _ _
  rw [State.release, hdata]
  simp only [if_pos hbusy, State.releaseWorker, State.stop, State.delete, State.setWorker, hidle]
  simp [State.putBack, State.discard]

theorem Inv.putBack (h : Inv minSize maxSize s) (hheld : s.holder task = some w)
    (hidle : s.worker w = some .idle) (hrun : s.stopped = false) (hlive : s.destroyed = false)
    (hroom : s.freeWorkers.length < minSize) : Inv minSize maxSize (s.putBack w task) := by
  obtain ⟨hbusy, hfree⟩ := h.held hheld
  have hperm : (s.freeWorkers ++ [w] ++ s.busyWorkers.erase w).Perm
      (s.freeWorkers ++ s.busyWorkers) := by
    rw [List.append_assoc]
    exact (List.perm_cons_erase hbusy).symm.append_left _
  refine ⟨h.fault, hperm.nodup_iff.mpr h.nodup, fun v => hperm.mem_iff.trans (h.live v), ?_, ?_,
    fun v hv => ?_, ?_, fun hd => absurd (hlive.symm.trans hd) (by simp)⟩
  · show (s.freeWorkers ++ [w]).length ≤ minSize
    rw [List.length_append]
    exact hroom
  · exact Nat.le_trans (List.length_erase_le) h.busy_le
  · rcases List.mem_append.mp hv with hv | hv
    · exact h.rests v hv
    · obtain rfl := List.mem_singleton.mp hv
      exact .inr ⟨hrun, .inr hidle⟩
  · exact h.assigned.release hheld (List.nodup_append.mp h.nodup).2.1 rfl rfl rfl rfl rfl
      fun _ _ => rfl

theorem Inv.discard (h : Inv minSize maxSize s) (hheld : s.holder task = some w)
    (hlive : s.destroyed = false) : Inv minSize maxSize (s.discard w task) := by
  obtain ⟨hbusy, hfree⟩ := h.held hheld
  have hnodup := (List.nodup_append.mp h.nodup).2.1
  have hother : ∀ v, v ≠ w → (s.discard w task).worker v = s.worker v := fun v hv =>
    Function.update_of_ne hv _ _
  have hsub : (s.freeWorkers ++ s.busyWorkers.erase w).Sublist (s.freeWorkers ++ s.busyWorkers) :=
    List.erase_sublist.append_left _
  refine ⟨h.fault, h.nodup.sublist hsub, fun v => ?_, h.free_le, ?_, fun v hv => ?_, ?_,
    fun hd => absurd (hlive.symm.trans hd) (by simp)⟩
  · show v ∈ s.freeWorkers ++ s.busyWorkers.erase w ↔ _
    rw [List.mem_append, hnodup.mem_erase_iff]
    by_cases hv : v = w
    · rw [hv, show (s.discard w task).worker w = none from Function.update_self _ _ _]
      simp [hfree]
    · rw [hother v hv, ← h.live v, List.mem_append, and_iff_right hv]
  · exact Nat.le_trans (List.length_erase_le) h.busy_le
  · have hne : v ≠ w := fun he => hfree (he ▸ hv)
    have hrests := h.rests v hv
    rw [State.Rests, ← hother v hne] at hrests
    exact hrests
  · exact h.assigned.release hheld hnodup rfl rfl rfl rfl rfl hother

/-! ### The stop and the end -/

theorem foldl_stop {ws : List W} (hws : ∀ w ∈ ws, s.worker w = some .idle ∨ s.worker w = some .joined) :
    ws.foldl State.stop s =
      { s with worker := fun w => if w ∈ ws then some .joined else s.worker w } := by
  induction ws generalizing s with
  | nil => simp
  | cons w ws ih =>
    have hstop : s.stop w = s.setWorker w (some .joined) := by
      rcases hws w (List.mem_cons_self ..) with hw | hw <;> simp [State.stop, hw]
    rw [List.foldl_cons, hstop, ih]
    · simp only [State.setWorker, List.mem_cons, State.mk.injEq, true_and, and_true]
      funext v
      by_cases hv : v = w
      · simp [hv]
      · rw [Function.update_of_ne hv]
        simp [hv]
    · intro v hv
      by_cases he : v = w
      · exact .inr (by rw [he]; exact Function.update_self _ _ _)
      · rw [show (s.setWorker w (some .joined)).worker v = s.worker v from Function.update_of_ne he _ _]
        exact hws v (List.mem_cons_of_mem _ hv)

theorem foldl_delete {ws : List W} (hnodup : ws.Nodup) (hws : ∀ w ∈ ws, s.worker w = some .joined) :
    ws.foldl State.delete s = { s with worker := fun w => if w ∈ ws then none else s.worker w } := by
  induction ws generalizing s with
  | nil => simp
  | cons w ws ih =>
    obtain ⟨hw, hnodup⟩ := List.nodup_cons.mp hnodup
    have hdelete : s.delete w = s.setWorker w none := by
      rw [State.delete, if_pos (hws w (List.mem_cons_self ..))]
    rw [List.foldl_cons, hdelete, ih hnodup]
    · simp only [State.setWorker, List.mem_cons, State.mk.injEq, true_and, and_true]
      funext v
      by_cases hv : v = w
      · simp [hv]
      · rw [Function.update_of_ne hv]
        simp [hv]
    · intro v hv
      have he : v ≠ w := fun he => hw (he ▸ hv)
      rw [show (s.setWorker w none).worker v = s.worker v from Function.update_of_ne he _ _]
      exact hws v (List.mem_cons_of_mem _ hv)

theorem Inv.stopWorkers (h : Inv minSize maxSize s) (hlive : s.destroyed = false)
    (hok : ∀ w ∈ s.freeWorkers, s.worker w ≠ some .starting) :
    Inv minSize maxSize s.stopWorkers := by
  have hws : ∀ w ∈ s.freeWorkers, s.worker w = some .idle ∨ s.worker w = some .joined := by
    intro w hw
    rcases h.rests w hw with ⟨-, hj⟩ | ⟨-, hstarting | hidle⟩
    · exact .inr hj
    · exact absurd hstarting (hok w hw)
    · exact .inl hidle
  rw [State.stopWorkers, foldl_stop hws]
  refine ⟨h.fault, h.nodup, fun v => ?_, h.free_le, h.busy_le, fun v hv => ?_, ?_,
    fun hd => absurd (hlive.symm.trans hd) (by simp)⟩
  · refine (h.live v).trans ?_
    by_cases hv : v ∈ s.freeWorkers
    · have hlive' : s.worker v ≠ none := (h.live v).mp (List.mem_append_left _ hv)
      simp [hv, hlive']
    · simp [hv]
  · exact .inl ⟨rfl, by simp [show v ∈ s.freeWorkers from hv]⟩
  · refine h.assigned.frame rfl rfl rfl rfl rfl fun v hv => ?_
    simp [h.not_free hv]

omit [DecidableEq W] [DecidableEq T] in
/-- When no task is running and every message has been released, no worker is busy. -/
theorem Inv.none_busy (h : Inv minSize maxSize s) (hok : s.finished = [])
    (hidle : ∀ w ∈ s.busyWorkers, s.worker w = some .idle) : s.busyWorkers = [] := by
  refine List.eq_nil_iff_forall_not_mem.mpr fun w hw => ?_
  obtain ⟨task, hheld⟩ := (h.assigned.busy w).mp hw
  have hf := (h.assigned.finished task).mpr ⟨w, hheld, hidle w hw⟩
  rw [hok] at hf
  exact absurd hf (by simp)

theorem Inv.destroy (h : Inv minSize maxSize s) (hstop : s.stopped = true)
    (hbusy : s.busyWorkers = []) : Inv minSize maxSize s.destroy := by
  have hws : ∀ w ∈ s.freeWorkers, s.worker w = some .joined := by
    intro w hw
    rcases h.rests w hw with ⟨-, hj⟩ | ⟨hrun, -⟩
    · exact hj
    · exact absurd (hstop.symm.trans hrun) (by simp)
  have hnodup := h.nodup
  have hlive := h.live
  rw [hbusy, List.append_nil] at hnodup
  rw [State.destroy, foldl_delete hnodup hws]
  refine ⟨h.fault, ?_, fun v => ?_, Nat.zero_le _, h.busy_le, fun v hv => absurd hv (by simp), ?_,
    fun _ => ⟨rfl, hbusy⟩⟩
  · rw [show ([] : List W) ++ s.busyWorkers = [] from hbusy]
    exact List.nodup_nil
  · rw [show ([] : List W) ++ s.busyWorkers = [] from hbusy]
    rw [hbusy, List.append_nil] at hlive
    by_cases hv : v ∈ s.freeWorkers
    · simp [hv]
    · simpa [hv] using mt (hlive v).mpr hv
  · refine h.assigned.frame rfl rfl rfl rfl rfl fun v hv => ?_
    rw [hbusy] at hv
    exact absurd hv (by simp)

/-! ### The threads of the workers -/

omit [DecidableEq T] in
theorem Inv.started (h : Inv minSize maxSize s) (hw : s.worker w = some .starting)
    (hlive : s.destroyed = false) : Inv minSize maxSize (s.setWorker w (some .idle)) := by
  obtain ⟨hfree, hrun⟩ := h.starting_free hw
  have hself : (s.setWorker w (some .idle)).worker w = some .idle := Function.update_self _ _ _
  have hother : ∀ v, v ≠ w → (s.setWorker w (some .idle)).worker v = s.worker v := fun v hv =>
    Function.update_of_ne hv _ _
  refine ⟨h.fault, h.nodup, fun v => (h.live v).trans ?_, h.free_le, h.busy_le, fun v hv => ?_, ?_,
    fun hd => absurd (hlive.symm.trans hd) (by simp)⟩
  · by_cases hv : v = w
    · rw [hv, hself, hw]
      simp
    · rw [hother v hv]
  · by_cases he : v = w
    · exact .inr ⟨hrun, .inr (he ▸ hself)⟩
    · have hrests := h.rests v hv
      rw [State.Rests, ← hother v he] at hrests
      exact hrests
  · exact h.assigned.frame rfl rfl rfl rfl rfl fun v hv =>
      hother v fun he => h.not_free hv (he ▸ hfree)

omit [DecidableEq W] [DecidableEq T] in
theorem Inv.advance (h : Inv minSize maxSize s) (hheld : s.holder task = some w)
    (hself : t.worker w = some x) (hother : ∀ v, v ≠ w → t.worker v = s.worker v)
    (hlists : t.freeWorkers = s.freeWorkers ∧ t.busyWorkers = s.busyWorkers)
    (hflags : t.fault = s.fault ∧ t.stopped = s.stopped ∧ t.destroyed = s.destroyed)
    (hassigned : Assigned t) : Inv minSize maxSize t := by
  obtain ⟨hbusy, hfree⟩ := h.held hheld
  obtain ⟨hfault, hstopped, hdestroyed⟩ := hflags
  refine ⟨hfault.trans h.fault, ?_, fun v => ?_, ?_, ?_, fun v hv => ?_, hassigned, fun hd => ?_⟩
  · rw [hlists.1, hlists.2]
    exact h.nodup
  · rw [hlists.1, hlists.2, h.live v]
    by_cases hv : v = w
    · rw [hv, hself]
      have hlive := (h.live w).mp (List.mem_append_right _ hbusy)
      simp [hlive]
    · rw [hother v hv]
  · rw [hlists.1]
    exact h.free_le
  · rw [hlists.2]
    exact h.busy_le
  · rw [hlists.1] at hv
    rw [State.Rests, hstopped, hother v fun he => hfree (he ▸ hv)]
    exact h.rests v hv
  · rw [hlists.1, hlists.2]
    exact h.destroyed (hdestroyed ▸ hd)

theorem Inv.work (h : Inv minSize maxSize s) (hlive : s.destroyed = false)
    (hs : s.work w = some t) : Inv minSize maxSize t := by
  have hself : ∀ y, (s.setWorker w y).worker w = y := fun y => Function.update_self _ _ _
  have hother : ∀ y v, v ≠ w → (s.setWorker w y).worker v = s.worker v := fun y v hv =>
    Function.update_of_ne hv _ _
  rw [State.work] at hs
  split at hs
  case h_1 hw =>
    obtain rfl := Option.some.inj hs
    exact h.started hw hlive
  case h_2 task hw =>
    obtain ⟨task', hheld, rfl⟩ := h.busy_with hw ⟨by simp, by simp, by simp⟩
    obtain rfl := Option.some.inj hs
    refine h.advance hheld (hself _) (hother _) ⟨rfl, rfl⟩ ⟨rfl, rfl, rfl⟩ ?_
    refine h.assigned.advance hheld rfl rfl (hself _) (hother _)
      (fun t' ht => Function.update_of_ne ht _ _) (fun _ _ => rfl) ⟨rfl, Function.update_self _ _ _⟩
      (fun t' => ?_) (by simp [hw]) h.assigned.nodup
    simp [State.setWorker]
  case h_3 task hw =>
    obtain ⟨task', hheld, rfl, hran⟩ := h.busy_with hw ⟨by simp, by simp, by simp⟩
    obtain rfl := Option.some.inj hs
    refine h.advance hheld (hself _) (hother _) ⟨rfl, rfl⟩ ⟨rfl, rfl, rfl⟩ ?_
    refine h.assigned.advance hheld rfl rfl (hself _) (hother _)
      (fun _ _ => rfl) (fun t' ht => Function.update_of_ne ht _ _)
      ⟨rfl, hran, Function.update_self _ _ _⟩ (fun t' => ?_) (by simp [hw]) h.assigned.nodup
    simp [State.setWorker]
  case h_4 task hw =>
    obtain ⟨task', hheld, rfl, hran, hdata⟩ := h.busy_with hw ⟨by simp, by simp, by simp⟩
    obtain rfl := Option.some.inj hs
    have hnew : task ∉ s.finished := by
      intro hf
      obtain ⟨v, hv, hidle⟩ := (h.assigned.finished task).mp hf
      obtain rfl : v = w := Option.some.inj (hv.symm.trans hheld)
      rw [hw] at hidle
      exact absurd hidle (by simp)
    refine h.advance hheld (hself _) (hother _) ⟨rfl, rfl⟩ ⟨rfl, rfl, rfl⟩ ?_
    refine h.assigned.advance hheld rfl rfl (hself _) (hother _) (fun _ _ => rfl) (fun _ _ => rfl)
      ⟨hran, hdata⟩ (fun t' => ?_) (by simp [hw]) ?_
    · simp
    · exact List.nodup_append_comm.mp (List.nodup_cons.mpr ⟨hnew, h.assigned.nodup⟩)
  case h_5 => exact absurd hs (by simp)

/-! ### Runs -/

omit [DecidableEq T] in
theorem Inv.create {workers : List W} (hnodup : workers.Nodup) :
    Inv workers.length maxSize (create workers : State W T) where
  fault := rfl
  nodup := by
    show (workers ++ []).Nodup
    rw [List.append_nil]
    exact hnodup
  live w := by simp [ThreadPool.create]
  free_le := Nat.le_refl _
  busy_le := Nat.zero_le _
  rests w hw := .inr ⟨rfl, .inl (if_pos hw)⟩
  assigned := ⟨by simp [ThreadPool.create], by simp [ThreadPool.create], by simp [ThreadPool.create],
    by simp [ThreadPool.create], List.nodup_nil⟩
  destroyed hd := absurd hd (by simp [ThreadPool.create])

theorem Inv.step {a : Action W T} (h : Inv minSize maxSize s) (hok : StepOk minSize maxSize s a)
    (hs : step minSize maxSize s a = some t) : Inv minSize maxSize t := by
  obtain ⟨⟨-, hlive⟩, hs⟩ := Option.ite_none_right_eq_some.mp hs
  cases a with
  | tryRun task new started =>
    obtain ⟨⟨hnew, haddress⟩, hs⟩ := Option.ite_none_right_eq_some.mp hs |>.imp_right Option.some.inj
    rw [← hs]
    by_cases hroom : s.busyWorkers.length < maxSize
    · have hempty : s.stopped = true → s.freeWorkers = [] := fun hstop =>
        (hok hstop).resolve_right (Nat.not_le.mpr hroom)
      obtain ⟨F, w, x, htakes, heq, hx⟩ := h.tryRun_eq hroom haddress hempty task started
      rw [heq]
      exact h.give htakes hroom hnew hx hlive
    · rw [State.tryRun, if_neg hroom]
      exact h
  | release task =>
    obtain ⟨hf, hs⟩ := Option.ite_none_right_eq_some.mp hs |>.imp_right Option.some.inj
    obtain ⟨w, hheld, hidle, -, hdata, hbusy⟩ := h.finished_worker hf
    rw [← hs, release_eq hidle hdata hbusy]
    split_ifs with hroom
    · have hrun : s.stopped = false := Bool.eq_false_iff.mpr fun hstop =>
        absurd (hok hstop) (Nat.not_le.mpr hroom)
      exact h.putBack hheld hidle hrun hlive hroom
    · exact h.discard hheld hlive
  | work w => exact h.work hlive hs
  | stopWorkers =>
    obtain ⟨-, hs⟩ := Option.ite_none_left_eq_some.mp hs |>.imp_right Option.some.inj
    rw [← hs]
    exact h.stopWorkers hlive hok
  | destroy =>
    obtain ⟨⟨hstop, hidle⟩, hs⟩ := Option.ite_none_right_eq_some.mp hs |>.imp_right Option.some.inj
    rw [← hs]
    exact h.destroy hstop (h.none_busy hok hidle)

theorem inv_of_reachable {workers : List W} (hnodup : workers.Nodup)
    (h : (machine T workers maxSize).ReachableWith (StepOk workers.length maxSize) s) :
    Inv workers.length maxSize s :=
  h.invariant (Inv.create hnodup) fun _ _ _ hinv hok hs => hinv.step hok hs

end Dumbo.Reactor.ThreadPool
