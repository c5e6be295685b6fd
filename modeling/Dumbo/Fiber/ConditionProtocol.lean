import Dumbo.Fiber.ConditionVariable

/-!
# The protocol of condition variables
-/

namespace Dumbo.Fiber.ConditionVariable

open Transition

variable {F M C : Type*}

/-! ### What holds of each fiber -/

/-- A fiber that runs a predicate owns the mutex; one that waits does not, and is linked until a
notification that has come after the link. -/
def FiberOk (s : State F M C) (f : F) : Prop :=
  match s.mode f with
  | .outside => ∀ w timeout, s.phase f = .pred w timeout →
      s.sync.owner w.lt = some f ∧ w.pred = true ∧ (timeout = true → w.timeoutTime ≠ none)
  | .suspended (.wait w) | .expired (.wait w) => s.phase f = .idle ∧ s.sync.owner w.lt ≠ some f ∧
      s.notified f = none ∧ s.linked f < s.steps
  | .notified (.wait w) => s.phase f = .idle ∧ s.sync.owner w.lt ≠ some f ∧
      ∃ n, s.notified f = some (n, w.cnd) ∧ s.linked f < n
  | .suspended (.relock w timeout) | .expired (.relock w timeout) | .notified (.relock w timeout) =>
      s.phase f = .idle ∧ (timeout = true → w.timeoutTime ≠ none)
  | .suspended (.lock _) | .expired (.lock _) | .notified (.lock _) => s.phase f = .idle

structure Inv (s : State F M C) : Prop where
  sync : s.sync.Ok
  fibers : ∀ f, FiberOk s f
  /-- a wait queue is in the order of the links -/
  order : ∀ cnd, (s.sync.fibers.queue (.condition cnd)).Pairwise fun f g => s.linked f < s.linked g
  running : s.terminated = false

variable {s t : State F M C} {f : F} {w : WaitCall M C}

theorem FiberOk.waits (h : FiberOk s f)
    (hf : s.mode f = .suspended (.wait w) ∨ s.mode f = .expired (.wait w)) :
    s.phase f = .idle ∧ s.sync.owner w.lt ≠ some f ∧ s.notified f = none ∧ s.linked f < s.steps := by
  rcases hf with hf | hf
  · simpa only [FiberOk, hf] using h
  · simpa only [FiberOk, hf] using h

theorem FiberOk.woken (h : FiberOk s f) (hf : s.mode f = .notified (.wait w)) :
    s.phase f = .idle ∧ s.sync.owner w.lt ≠ some f ∧
      ∃ n, s.notified f = some (n, w.cnd) ∧ s.linked f < n := by
  simpa only [FiberOk, hf] using h

theorem FiberOk.idle (h : FiberOk s f) (hf : s.mode f ≠ .outside) : s.phase f = .idle := by
  revert h
  rw [FiberOk]
  split
  · rename_i hmode
    exact fun _ => absurd hmode hf
  all_goals first | exact fun h => h.1 | exact fun h => h

theorem FiberOk.outside_of_pred {timeout : Bool} (h : FiberOk s f)
    (hp : s.phase f = .pred w timeout) : s.mode f = .outside := by
  by_contra hf
  rw [h.idle hf] at hp
  exact absurd hp (by simp)

theorem FiberOk.pred {timeout : Bool} (h : FiberOk s f) (hp : s.phase f = .pred w timeout) :
    s.sync.owner w.lt = some f ∧ w.pred = true ∧ (timeout = true → w.timeoutTime ≠ none) := by
  have hf := h.outside_of_pred hp
  simp only [FiberOk, hf] at h
  exact h w timeout hp

theorem FiberOk.congr (h : FiberOk s f) (hmode : t.mode f = s.mode f) (hphase : t.phase f = s.phase f)
    (howner : ∀ m, t.sync.owner m = some f ↔ s.sync.owner m = some f)
    (hlinked : t.linked f = s.linked f) (hnotified : t.notified f = s.notified f)
    (hsteps : s.steps ≤ t.steps) : FiberOk t f := by
  revert h
  rw [FiberOk, FiberOk, hmode, hphase, hlinked, hnotified]
  simp only [ne_eq, howner]
  split
  · exact id
  · exact fun h => ⟨h.1, h.2.1, h.2.2.1, Nat.lt_of_lt_of_le h.2.2.2 hsteps⟩
  · exact fun h => ⟨h.1, h.2.1, h.2.2.1, Nat.lt_of_lt_of_le h.2.2.2 hsteps⟩
  all_goals exact id

theorem FiberOk.handed {op : SyncCall M C} {mtx : M} (h : FiberOk s f)
    (hm : s.mode f = .suspended op ∨ s.mode f = .expired op) (hop : Wait.queue op = some (.mutex mtx))
    (hmode : t.mode f = .notified op) (hphase : t.phase f = s.phase f) : FiberOk t f := by
  have hold : FiberOk s f := h
  cases op with
  | lock m =>
    rw [FiberOk, hmode, hphase]
    exact hold.idle (by rcases hm with hm | hm <;> simp [hm])
  | wait w => simp [Wait.queue] at hop
  | relock w timeout =>
    rw [FiberOk, hmode, hphase]
    rcases hm with hm | hm
    · simpa only [FiberOk, hm] using h
    · simpa only [FiberOk, hm] using h

theorem FiberOk.released {g : F} {mtx : M} (h : FiberOk s g)
    (hrelease : t.mode g = s.mode g ∧ t.sync.owner mtx ≠ some g ∨
      ∃ op, (s.mode g = .suspended op ∨ s.mode g = .expired op) ∧ Wait.queue op = some (.mutex mtx) ∧
        t.mode g = .notified op ∧ t.sync.owner mtx = some g)
    (howner : s.sync.owner mtx = some f) (hg : f ≠ g)
    (hothers : ∀ m, m ≠ mtx → t.sync.owner m = s.sync.owner m) (hphase : t.phase g = s.phase g)
    (hlinked : t.linked g = s.linked g) (hnotified : t.notified g = s.notified g)
    (hsteps : s.steps ≤ t.steps) : FiberOk t g := by
  rcases hrelease with ⟨hsame, hnot⟩ | ⟨op, hm, hop, hlast, _⟩
  · refine h.congr hsame hphase (fun m => ?_) hlinked hnotified hsteps
    by_cases hm : m = mtx
    · subst hm
      rw [howner]
      simp [hnot, hg]
    · rw [hothers m hm]
  · exact h.handed hm hop hlast hphase

theorem Inv.initial (clock : Nat) : Inv (State.initial clock : State F M C) := by
  refine ⟨.initial clock, fun f => ?_, fun _ => List.Pairwise.nil, rfl⟩
  intro w timeout hp
  exact absurd hp (by simp [State.initial])

theorem Inv.outside_of_idle (h : s.idle f = true) : s.mode f = .outside ∧ s.phase f = .idle := by
  rw [State.idle] at h
  split at h
  · rename_i hmode hphase
    exact ⟨hmode, hphase⟩
  · exact absurd h Bool.false_ne_true

/-- A fiber in a wait queue has released the mutex, and no notification has reached it. -/
theorem Inv.linked {cnd : C} (h : Inv s) (hf : f ∈ s.sync.fibers.queue (.condition cnd)) :
    s.notified f = none ∧ s.linked f < s.steps := by
  obtain ⟨op, hm, hop⟩ := h.sync.fibers.of_mem hf
  cases op with
  | wait w => exact ((h.fibers f).waits hm).2.2
  | lock _ | relock _ _ => simp [Wait.queue] at hop

theorem Inv.change (h : Inv s) (f : F) (hsync : t.sync.Ok)
    (hmode : ∀ g, g ≠ f → t.mode g = s.mode g) (hphase : ∀ g, g ≠ f → t.phase g = s.phase g)
    (howner : ∀ g, g ≠ f → ∀ m, t.sync.owner m = some g ↔ s.sync.owner m = some g)
    (hqueue : ∀ cnd, (t.sync.fibers.queue (.condition cnd)).Sublist
      (s.sync.fibers.queue (.condition cnd)))
    (hghosts : t.linked = s.linked ∧ t.notified = s.notified ∧ t.steps = s.steps)
    (hrunning : t.terminated = false) (hf : FiberOk t f) : Inv t := by
  obtain ⟨hlinked, hnotified, hsteps⟩ := hghosts
  refine ⟨hsync, fun g => ?_, fun cnd => ?_, hrunning⟩
  · by_cases hg : g = f
    · exact hg ▸ hf
    · exact (h.fibers g).congr (hmode g hg) (hphase g hg) (howner g hg) (by rw [hlinked])
        (by rw [hnotified]) (Nat.le_of_eq hsteps.symm)
  · rw [hlinked]
    exact (h.order cnd).sublist (hqueue cnd)

theorem Inv.count (h : Inv s) : Inv s.count :=
  ⟨h.sync, fun f => (h.fibers f).congr rfl rfl (fun _ => Iff.rfl) rfl rfl (Nat.le_succ _), h.order,
    h.running⟩

theorem FiberOk.of_outside (hmode : t.mode f = .outside)
    (hpred : ∀ w timeout, t.phase f = .pred w timeout →
      t.sync.owner w.lt = some f ∧ w.pred = true ∧ (timeout = true → w.timeoutTime ≠ none)) :
    FiberOk t f := by
  rw [FiberOk, hmode]
  exact hpred

theorem FiberOk.of_idle (hmode : t.mode f = .outside) (hphase : t.phase f = .idle) : FiberOk t f :=
  .of_outside hmode fun w timeout hp => absurd (hphase.symm.trans hp) (by simp)

variable [DecidableEq F]

theorem Inv.setPhase (h : Inv s) {phase : Phase M C} (hf : s.mode f = .outside)
    (hphase : ∀ w timeout, phase = .pred w timeout →
      s.sync.owner w.lt = some f ∧ w.pred = true ∧ (timeout = true → w.timeoutTime ≠ none)) :
    Inv (s.setPhase f phase) := by
  have hself : (s.setPhase f phase).phase f = phase := Function.update_self _ _ _
  exact h.change f h.sync (fun _ _ => rfl) (fun g hg => Function.update_of_ne hg _ _)
    (fun _ _ _ => Iff.rfl) (fun _ => .refl _) ⟨rfl, rfl, rfl⟩ h.running
    (.of_outside hf fun w timeout hp => hphase w timeout (hself.symm.trans hp))

theorem Inv.finish (h : Inv s) (hf : s.mode f = .outside) (result : Bool) :
    Inv (s.finish f w result) := by
  have hidle : Inv (s.setPhase f .idle) := h.setPhase hf fun _ _ hp => absurd hp (by simp)
  exact ⟨hidle.sync, hidle.fibers, hidle.order, hidle.running⟩

theorem Inv.relocked (h : Inv s) {timeout : Bool} (hf : s.mode f = .outside)
    (howner : s.sync.owner w.lt = some f) (htime : timeout = true → w.timeoutTime ≠ none) :
    Inv (s.relocked f w timeout) := by
  rw [State.relocked]
  by_cases hw : w.pred = true
  · rw [if_pos hw]
    refine h.setPhase hf fun w' timeout' hp => ?_
    rw [Phase.pred.injEq] at hp
    obtain ⟨rfl, rfl⟩ := hp
    exact ⟨howner, hw, htime⟩
  · rw [if_neg hw]
    exact h.finish hf _

theorem Inv.pick (h : Inv s) (hf : s.phase f = .idle) (hnot : ∀ k, f ∉ s.sync.fibers.queue k) :
    Inv (s.pick f) :=
  h.change f (h.sync.resumed hnot) (fun _ hg => Function.update_of_ne hg _ _) (fun _ _ => rfl)
    (fun _ _ _ => Iff.rfl) (fun _ => .refl _) ⟨rfl, rfl, rfl⟩ h.running
    (.of_idle (Function.update_self _ _ _) hf)

theorem Inv.unlink (h : Inv s) (hf : s.phase f = .idle) : Inv (s.unlink f) :=
  h.change f h.sync.giveUp (fun _ hg => Function.update_of_ne hg _ _) (fun _ _ => rfl)
    (fun _ _ _ => Iff.rfl) (fun _ => List.erase_sublist) ⟨rfl, rfl, rfl⟩ h.running
    (.of_idle (Function.update_self _ _ _) hf)

variable [DecidableEq M]

omit [DecidableEq F] in
theorem Inv.take {mtx : M} (h : Inv s) (hf : s.mode f = .outside) (hidle : s.phase f = .idle)
    (hfree : s.sync.owner mtx = none) : Inv { s with sync := s.sync.take mtx f } := by
  refine h.change f (h.sync.take hfree f) (fun _ _ => rfl) (fun _ _ => rfl) (fun g hg m => ?_)
    (fun _ => .refl _) ⟨rfl, rfl, rfl⟩ h.running (.of_idle hf hidle)
  show (s.sync.take mtx f).owner m = some g ↔ _
  rw [Sync.take_owner]
  by_cases hm : m = mtx
  · subst hm
    rw [Function.update_self, hfree]
    simp [Ne.symm hg]
  · rw [Function.update_of_ne hm]

variable [DecidableEq C]

theorem park_mode (s : State F M C) (f : F) (op : SyncCall M C) :
    State.mode { s with sync := s.sync.park f op } f = .suspended op :=
  Function.update_self _ _ _

theorem Inv.park {op : SyncCall M C} {mtx : M} (h : Inv s) (hf : s.mode f = .outside)
    (hop : Wait.queue op = some (.mutex mtx)) {g : F} (howner : s.sync.owner mtx = some g) (hg : g ≠ f)
    (hok : FiberOk { s with sync := s.sync.park f op } f) : Inv { s with sync := s.sync.park f op } := by
  refine h.change f (h.sync.park_mutex hf hop howner hg) (fun _ hg => Function.update_of_ne hg _ _)
    (fun _ _ => rfl) (fun _ _ _ => Iff.rfl) (fun cnd => ?_) ⟨rfl, rfl, rfl⟩ h.running hok
  show (Fibers.link s.sync.fibers.queue (Wait.queue op) f (.condition cnd)).Sublist _
  rw [hop, Fibers.link, Function.update_of_ne (by simp)]

theorem Inv.release {mtx : M} (h : Inv s) (hf : s.mode f = .outside) (hidle : s.phase f = .idle)
    (howner : s.sync.owner mtx = some f) : Inv { s with sync := s.sync.release mtx } := by
  refine ⟨h.sync.release howner (.inl hf), fun g => ?_, fun cnd => ?_, h.running⟩
  · by_cases hg : g = f
    · subst hg
      refine .of_idle ?_ hidle
      rcases h.sync.release_fiber mtx g with ⟨hsame, _⟩ | ⟨op, hm, _, _, _⟩
      · exact hsame.trans hf
      · rw [show s.sync.fibers.mode g = .outside from hf] at hm
        simp at hm
    · exact (h.fibers g).released (h.sync.release_fiber mtx g) howner (Ne.symm hg)
        (fun m hm => Function.update_of_ne hm _ _) rfl rfl rfl (Nat.le_refl _)
  · show ((s.sync.release mtx).fibers.queue (.condition cnd)).Pairwise _
    rw [Sync.release_queue, Function.update_of_ne (by simp)]
    exact h.order cnd

theorem Inv.lock (h : Inv s) (hf : s.idle f = true) (mtx : M) : Inv (s.lock f mtx) := by
  obtain ⟨hmode, hidle⟩ := Inv.outside_of_idle hf
  rw [State.lock]
  split_ifs with hown hfree
  · exact h
  · exact h.take hmode hidle hfree
  · obtain ⟨g, hg⟩ := Option.ne_none_iff_exists'.mp hfree
    have hne : g ≠ f := fun he => hown (he ▸ hg)
    refine h.park hmode (SyncCall.queue_lock mtx) hg hne ?_
    rw [FiberOk, park_mode]
    exact hidle

omit [DecidableEq C] in
theorem Inv.tryLock (h : Inv s) (hf : s.idle f = true) (mtx : M) : Inv (s.tryLock f mtx) := by
  obtain ⟨hmode, hidle⟩ := Inv.outside_of_idle hf
  rw [State.tryLock]
  split_ifs with hown hfree
  · exact h
  · exact h.take hmode hidle hfree
  · exact h

theorem Inv.unlock (h : Inv s) (hf : s.idle f = true) (mtx : M) : Inv (s.unlock f mtx) := by
  obtain ⟨hmode, hidle⟩ := Inv.outside_of_idle hf
  rw [State.unlock]
  split_ifs with hown
  · exact h
  · exact h.release hmode hidle (not_not.mp hown)

theorem Inv.relock {timeout : Bool} (h : Inv s) (hf : s.mode f = .outside) (hidle : s.phase f = .idle)
    (howner : s.sync.owner w.lt ≠ some f) (htime : timeout = true → w.timeoutTime ≠ none) :
    Inv (s.relock f w timeout) := by
  rw [State.relock, if_neg howner]
  split_ifs with hfree
  · refine (h.take hf hidle hfree).relocked hf ?_ htime
    show (s.sync.take w.lt f).owner w.lt = some f
    rw [Sync.take_owner, Function.update_self]
  · obtain ⟨g, hg⟩ := Option.ne_none_iff_exists'.mp hfree
    have hne : g ≠ f := fun he => howner (he ▸ hg)
    refine h.park hf (SyncCall.queue_relock w timeout) hg hne ?_
    rw [FiberOk, park_mode]
    exact ⟨hidle, htime⟩

theorem Inv.block (h : Inv s) (hf : s.mode f = .outside) (howner : s.sync.owner w.lt = some f) :
    Inv (s.block f w).count := by
  have hparked : (s.sync.park f (.wait w)).Ok := h.sync.park_condition hf rfl
  rw [State.count, State.block, h.sync.waitOn_eq howner (SyncCall.queue_wait w)]
  have hself : (s.sync.park f (.wait w)).fibers.mode f = .suspended (.wait w) :=
    Function.update_self _ _ _
  refine ⟨hparked.release howner (.inr ⟨_, hself⟩), fun g => ?_, fun cnd => ?_, h.running⟩
  · by_cases hg : g = f
    · subst hg
      rcases hparked.release_fiber w.lt g with ⟨hsame, hnot⟩ | ⟨op, hm, hop, _, _⟩
      · rw [FiberOk, State.mode, show ((s.sync.park g (.wait w)).release w.lt).fibers.mode g =
          .suspended (.wait w) from hsame.trans hself]
        refine ⟨Function.update_self _ _ _, hnot, Function.update_self _ _ _, ?_⟩
        show Function.update s.linked g s.steps g < s.steps + 1
        rw [Function.update_self]
        exact Nat.lt_succ_self _
      · rw [hself] at hm
        obtain rfl : SyncCall.wait w = op := by simpa using hm
        simp [Wait.queue] at hop
    · have hmode : (s.sync.park f (.wait w)).fibers.mode g = s.mode g := Function.update_of_ne hg _ _
      have hreleased := hparked.release_fiber w.lt g
      rw [hmode] at hreleased
      refine (h.fibers g).released hreleased howner (Ne.symm hg)
        (fun m hm => Function.update_of_ne hm _ _) (Function.update_of_ne hg _ _) (Function.update_of_ne hg _ _)
        (Function.update_of_ne hg _ _) (Nat.le_succ _)
  · have hnot : f ∉ s.sync.fibers.queue (.condition cnd) :=
      h.sync.fibers.not_linked (fun k => by rw [show s.sync.fibers.mode f = .outside from hf]; exact id) _
    have hqueue : ((s.sync.park f (.wait w)).release w.lt).fibers.queue (.condition cnd) =
        Fibers.link s.sync.fibers.queue (some (.condition w.cnd)) f (.condition cnd) := by
      rw [Sync.release_queue, Function.update_of_ne (by simp)]
      rfl
    have hold : (s.sync.fibers.queue (.condition cnd)).Pairwise fun g g' =>
        Function.update s.linked f s.steps g < Function.update s.linked f s.steps g' := by
      refine (h.order cnd).imp_of_mem fun hg hg' hlt => ?_
      rwa [Function.update_of_ne (ne_of_mem_of_not_mem hg hnot),
        Function.update_of_ne (ne_of_mem_of_not_mem hg' hnot)]
    show (((s.sync.park f (.wait w)).release w.lt).fibers.queue (.condition cnd)).Pairwise _
    rw [hqueue]
    by_cases hc : cnd = w.cnd
    · subst hc
      rw [Fibers.link, Function.update_self, List.pairwise_append]
      refine ⟨hold, List.pairwise_singleton _ _, fun g hg g' hg' => ?_⟩
      obtain rfl := List.mem_singleton.mp hg'
      show Function.update s.linked g' s.steps g < Function.update s.linked g' s.steps g'
      rw [Function.update_self, Function.update_of_ne (ne_of_mem_of_not_mem hg hnot)]
      exact (h.linked hg).2
    · rw [Fibers.link, Function.update_of_ne (by simpa using hc)]
      exact hold

omit [DecidableEq M] [DecidableEq C] in
theorem Inv.notify {fibers : Fibers F (SyncQueue M C) (SyncCall M C)} {cnd : C}
    {notified : F → Option (Nat × C)} (h : Inv s) (hok : Sync.Ok { s.sync with fibers := fibers })
    (hmode : ∀ g, fibers.mode g = s.mode g ∨
      ∃ op, (s.mode g = .suspended op ∨ s.mode g = .expired op) ∧
        Wait.queue op = some (.condition cnd) ∧ fibers.mode g = .notified op)
    (hqueue : ∀ c, (fibers.queue (.condition c)).Sublist (s.sync.fibers.queue (.condition c)))
    (hleft : ∀ g, g ∈ s.sync.fibers.queue (.condition cnd) → g ∉ fibers.queue (.condition cnd) →
      notified g = some (s.steps, cnd))
    (hkept : ∀ g, (g ∈ s.sync.fibers.queue (.condition cnd) → g ∈ fibers.queue (.condition cnd)) →
      notified g = s.notified g) :
    Inv { s with sync := { s.sync with fibers := fibers }, notified := notified } := by
  refine ⟨hok, fun g => ?_, fun c => (h.order c).sublist (hqueue c), h.running⟩
  by_cases hstay : g ∈ s.sync.fibers.queue (.condition cnd) → g ∈ fibers.queue (.condition cnd)
  · exact (h.fibers g).congr (h.sync.fibers.kept hok.fibers (hmode g) hstay) rfl (fun _ => Iff.rfl) rfl
      (hkept g hstay) (Nat.le_refl _)
  · rw [Classical.not_imp] at hstay
    obtain ⟨hin, hout⟩ := hstay
    obtain ⟨op, hm, hop, hlast⟩ := h.sync.fibers.woken_of_left hok.fibers (hmode g) hin hout
    cases op with
    | lock _ | relock _ _ => simp [Wait.queue] at hop
    | wait w =>
      obtain rfl : w.cnd = cnd := by simpa [Wait.queue] using hop
      obtain ⟨hidle, howner, _, hlinked⟩ := (h.fibers g).waits hm
      have hmode' : State.mode { s with sync := { s.sync with fibers := fibers }, notified := notified } g =
          .notified (.wait w) := hlast
      rw [FiberOk, hmode']
      exact ⟨hidle, howner, s.steps, hleft g hin hout, hlinked⟩

theorem Inv.notifyOne (h : Inv s) (cnd : C) : Inv (s.notifyOne cnd) := by
  have hnodup := h.sync.fibers.nodup (.condition cnd)
  refine h.notify (h.sync.wakeOne cnd) (fun g => h.sync.fibers.wakeOne_mode _ g) (fun c => ?_)
    (fun g hin hout => ?_) fun g hstay => ?_
  · rw [Fibers.wakeOne_queue]
    by_cases hc : c = cnd
    · subst hc
      rw [Function.update_self]
      exact List.tail_sublist _
    · rw [Function.update_of_ne (by simpa using hc)]
  · rw [Fibers.wakeOne_queue, Function.update_self] at hout
    refine if_pos ?_
    cases hqueue : s.sync.fibers.queue (.condition cnd) with
    | nil => simp [hqueue] at hin
    | cons first rest =>
      rw [hqueue, List.mem_cons] at hin
      rw [hqueue] at hout
      rcases hin with rfl | hin
      · rfl
      · exact absurd hin hout
  · rw [Fibers.wakeOne_queue, Function.update_self] at hstay
    refine if_neg fun hhead => ?_
    cases hqueue : s.sync.fibers.queue (.condition cnd) with
    | nil => simp [hqueue] at hhead
    | cons first rest =>
      rw [hqueue] at hhead hstay hnodup
      obtain rfl : first = g := Option.some.inj hhead
      exact (List.nodup_cons.mp hnodup).1 (hstay List.mem_cons_self)

theorem Inv.notifyAll (h : Inv s) (cnd : C) : Inv (s.notifyAll cnd) := by
  refine h.notify (h.sync.wakeAll cnd) (fun g => h.sync.fibers.wakeAll_mode _ g) (fun c => ?_)
    (fun g hin _ => if_pos hin) fun g hstay => ?_
  · rw [Fibers.wakeAll_queue]
    by_cases hc : c = cnd
    · subst hc
      rw [Function.update_self]
      exact List.nil_sublist _
    · rw [Function.update_of_ne (by simpa using hc)]
  · rw [Fibers.wakeAll_queue, Function.update_self] at hstay
    exact if_neg fun hin => List.not_mem_nil (hstay hin)

theorem Inv.resumeWait (h : Inv s) (hf : s.mode f = .expired (.wait w) ∨ s.mode f = .notified (.wait w)) :
    Inv (s.resumeWait f w) := by
  have hidle : s.phase f = .idle := (h.fibers f).idle (by rcases hf with hf | hf <;> simp [hf])
  have howner : s.sync.owner w.lt ≠ some f := by
    rcases hf with hf | hf
    · exact ((h.fibers f).waits (.inr hf)).2.1
    · exact ((h.fibers f).woken hf).2.1
  refine (h.unlink hidle).relock (Function.update_self _ _ _) hidle howner fun htime hnone => ?_
  rw [Fibers.inTime, show Wait.deadline (SyncCall.wait w : SyncCall M C) = none from hnone] at htime
  exact absurd htime (by simp)

omit [DecidableEq M] [DecidableEq C] in
theorem Inv.expire {op : SyncCall M C} (h : Inv s) (hf : s.mode f = .suspended op)
    (hover : s.sync.fibers.overdue op = true) :
    Inv { s with sync := { s.sync with fibers := s.sync.fibers.expire f op } } := by
  refine h.change f (h.sync.expire hf hover) (fun _ hg => Function.update_of_ne hg _ _)
    (fun _ _ => rfl) (fun _ _ _ => Iff.rfl) (fun _ => .refl _) ⟨rfl, rfl, rfl⟩ h.running ?_
  have hmode : State.mode { s with sync := { s.sync with fibers := s.sync.fibers.expire f op } } f =
      .expired op := Function.update_self _ _ _
  have hold := h.fibers f
  rw [FiberOk, hf] at hold
  rw [FiberOk, hmode]
  cases op with
  | lock _ | wait _ | relock _ _ => exact hold

omit [DecidableEq F] [DecidableEq M] [DecidableEq C] in
theorem Inv.tick (h : Inv s) (n : Nat) :
    Inv { s with sync := { s.sync with fibers := s.sync.fibers.tick n } } :=
  ⟨h.sync.tick n, h.fibers, h.order, h.running⟩

omit [DecidableEq M] [DecidableEq C] in
theorem Inv.resumeRelock {timeout : Bool} (h : Inv s) (hf : s.mode f = .notified (.relock w timeout)) :
    Inv ((s.pick f).relocked f w timeout) := by
  have hok := h.fibers f
  rw [FiberOk, hf] at hok
  have hnot := h.sync.fibers.not_linked (f := f) fun k => by
    rw [show s.sync.fibers.mode f = .notified (.relock w timeout) from hf]
    exact id
  exact (h.pick hok.1 hnot).relocked (Function.update_self _ _ _)
    (h.sync.handed w.lt f _ hf rfl) hok.2

theorem Inv.step {a : Action F M C} (h : Inv s) (hs : step s a = some t) : Inv t := by
  obtain ⟨u, hact, rfl⟩ := Option.map_eq_some_iff.mp hs
  cases acted hact with
  | lock hidle => exact (h.lock hidle _).count
  | tryLock hidle => exact (h.tryLock hidle _).count
  | unlock hidle => exact (h.unlock hidle _).count
  | check hidle howner hw =>
    refine (h.setPhase (Inv.outside_of_idle hidle).1 fun w timeout hp => ?_).count
    rw [Phase.pred.injEq] at hp
    obtain ⟨rfl, rfl⟩ := hp
    exact ⟨howner, hw, fun ht => absurd ht Bool.false_ne_true⟩
  | wait hidle howner _ => exact h.block (Inv.outside_of_idle hidle).1 howner
  | finish hphase _ => exact (h.finish ((h.fibers _).outside_of_pred hphase) _).count
  | again hphase => exact h.block ((h.fibers _).outside_of_pred hphase) ((h.fibers _).pred hphase).1
  | notifyOne cnd => exact (h.notifyOne cnd).count
  | notifyAll cnd => exact (h.notifyAll cnd).count
  | resumeWait hmode => exact (h.resumeWait hmode).count
  | @resumeLock f mtx hmode =>
    have hnot := h.sync.fibers.not_linked (f := f) fun k => by
      rw [show s.sync.fibers.mode f = .notified (.lock mtx) from hmode]
      exact id
    exact (h.pick ((h.fibers f).idle (by simp [hmode])) hnot).count
  | resumeRelock hmode => exact (h.resumeRelock hmode).count
  | expire hmode hover => exact (h.expire hmode hover).count
  | tick n => exact (h.tick n).count

theorem reachable_inv {clock : Nat} (hs : (machine F M C clock).Reachable s) : Inv s :=
  hs.invariant (Inv.initial clock) fun _ _ _ h ht => h.step ht

/-! ### The protocol -/

/-- A notification makes the fibers `fs` of a wait queue ready, and no other. -/
structure Readies (s t : State F M C) (cnd : C) (fs : List F) : Prop where
  ready : ∀ f ∈ fs, f ∈ t.sync.fibers.ready ∧ ∃ w, w.cnd = cnd ∧
    (s.mode f = .suspended (.wait w) ∨ s.mode f = .expired (.wait w)) ∧ t.mode f = .notified (.wait w)
  others : ∀ f, f ∉ fs → t.mode f = s.mode f ∧ (f ∈ t.sync.fibers.ready ↔ f ∈ s.sync.fibers.ready)

/-- A wait that returns in a step of the fiber. -/
structure Returned (s : State F M C) (a : Action F M C) (t : State F M C) (r : Return F M C) : Prop where
  owns : t.sync.owner r.call.lt = some r.fiber
  resumed : t.mode r.fiber = .outside
  unlinked : ∀ k, r.fiber ∉ t.sync.fibers.queue k
  /-- the predicate has just been found to hold, by the owner of the mutex -/
  pred : r.call.pred = true → r.result = true → a = .pred r.fiber true ∧
    (∃ timeout, s.phase r.fiber = .pred r.call timeout) ∧ s.mode r.fiber = .outside ∧
    s.sync.owner r.call.lt = some r.fiber

structure Protocol (s : State F M C) : Prop where
  running : s.terminated = false
  /-- a waiter has released the mutex and is linked until a notification reaches it -/
  found : ∀ f w, (s.mode f).call = some (.wait w) → s.sync.owner w.lt ≠ some f ∧
    (s.notified f = none → f ∈ s.sync.fibers.queue (.condition w.cnd))
  order : ∀ cnd, (s.sync.fibers.queue (.condition cnd)).Pairwise fun f g => s.linked f < s.linked g
  notifyOne : ∀ cnd t, step s (.notifyOne cnd) = some t →
    Readies s t cnd ((s.sync.fibers.queue (.condition cnd)).take 1)
  notifyAll : ∀ cnd t, step s (.notifyAll cnd) = some t →
    Readies s t cnd (s.sync.fibers.queue (.condition cnd))
  /-- an untimed wait ends with a notification -/
  untimed : ∀ f w t, step s (.resume f) = some t → (s.mode f).call = some (.wait w) →
    w.timeoutTime = none → ∃ n, s.notified f = some (n, w.cnd) ∧ s.linked f < n
  returns : ∀ a t, step s a = some t →
    ∃ rs, t.returned = rs ++ s.returned ∧ ∀ r ∈ rs, Returned s a t r

omit [DecidableEq F] [DecidableEq M] [DecidableEq C] in
theorem Inv.found (h : Inv s) (hf : (s.mode f).call = some (.wait w)) :
    s.sync.owner w.lt ≠ some f ∧
      (s.notified f = none → f ∈ s.sync.fibers.queue (.condition w.cnd)) := by
  cases hmode : s.mode f with
  | outside => simp [hmode, Mode.call] at hf
  | suspended op | expired op =>
    obtain rfl : op = .wait w := by simpa [hmode, Mode.call] using hf
    refine ⟨((h.fibers f).waits (by simp [hmode])).2.1, fun _ => ?_⟩
    rw [h.sync.fibers.linked, show s.sync.fibers.mode f = _ from hmode]
    rfl
  | notified op =>
    obtain rfl : op = .wait w := by simpa [hmode, Mode.call] using hf
    obtain ⟨_, howner, n, hn, _⟩ := (h.fibers f).woken hmode
    exact ⟨howner, fun hnone => absurd (hnone.symm.trans hn) (by simp)⟩

omit [DecidableEq F] [DecidableEq M] [DecidableEq C] in
theorem Inv.readies {cnd : C} {fs : List F} (h : Inv s) (ht : Inv t)
    (hmode : ∀ g, t.mode g = s.mode g ∨
      ∃ op, (s.mode g = .suspended op ∨ s.mode g = .expired op) ∧
        Wait.queue op = some (.condition cnd) ∧ t.mode g = .notified op)
    (hleft : ∀ g, g ∈ fs ↔ g ∈ s.sync.fibers.queue (.condition cnd) ∧
      g ∉ t.sync.fibers.queue (.condition cnd)) : Readies s t cnd fs := by
  refine ⟨fun g hg => ?_, fun g hg => ?_⟩
  · obtain ⟨hin, hout⟩ := (hleft g).mp hg
    obtain ⟨op, hm, hop, hlast⟩ := h.sync.fibers.woken_of_left ht.sync.fibers (hmode g) hin hout
    refine ⟨(ht.sync.fibers.ready g).mpr (by rw [hlast]; rfl), ?_⟩
    cases op with
    | lock _ | relock _ _ => simp [Wait.queue] at hop
    | wait w => exact ⟨w, by simpa [Wait.queue] using hop, hm, hlast⟩
  · have hsame := h.sync.fibers.kept ht.sync.fibers (hmode g) fun hin => by
      by_contra hout
      exact hg ((hleft g).mpr ⟨hin, hout⟩)
    refine ⟨hsame, ?_⟩
    rw [h.sync.fibers.ready, ht.sync.fibers.ready, hsame]

theorem Inv.readies_one (h : Inv s) {cnd : C} (hs : ConditionVariable.step s (.notifyOne cnd) = some t) :
    Readies s t cnd ((s.sync.fibers.queue (.condition cnd)).take 1) := by
  have ht := h.step hs
  obtain ⟨u, hact, rfl⟩ := Option.map_eq_some_iff.mp hs
  obtain rfl : s.notifyOne cnd = u := Option.some.inj hact
  refine h.readies ht (fun g => h.sync.fibers.wakeOne_mode _ g) fun g => ?_
  have hnodup := h.sync.fibers.nodup (.condition cnd)
  show g ∈ _ ↔ _ ∧ g ∉ (s.sync.fibers.wakeOne (.condition cnd)).queue (.condition cnd)
  rw [Fibers.wakeOne_queue, Function.update_self]
  cases hqueue : s.sync.fibers.queue (.condition cnd) with
  | nil => simp
  | cons first rest =>
    rw [hqueue, List.nodup_cons] at hnodup
    rw [List.take_succ_cons, List.take_zero, List.mem_singleton, List.mem_cons, List.tail_cons]
    constructor
    · rintro rfl
      exact ⟨.inl rfl, hnodup.1⟩
    · rintro ⟨hg | hg, hnot⟩
      · exact hg
      · exact absurd hg hnot

theorem Inv.readies_all (h : Inv s) {cnd : C} (hs : ConditionVariable.step s (.notifyAll cnd) = some t) :
    Readies s t cnd (s.sync.fibers.queue (.condition cnd)) := by
  have ht := h.step hs
  obtain ⟨u, hact, rfl⟩ := Option.map_eq_some_iff.mp hs
  obtain rfl : s.notifyAll cnd = u := Option.some.inj hact
  refine h.readies ht (fun g => h.sync.fibers.wakeAll_mode _ g) fun g => ?_
  show g ∈ _ ↔ _ ∧ g ∉ (s.sync.fibers.wakeAll (.condition cnd)).queue (.condition cnd)
  rw [Fibers.wakeAll_queue, Function.update_self]
  simp

/-- Without a deadline, the fiber is ready only when it has been notified. -/
theorem Inv.untimed (h : Inv s) (hs : ConditionVariable.step s (.resume f) = some t)
    (hf : (s.mode f).call = some (.wait w)) (hw : w.timeoutTime = none) :
    ∃ n, s.notified f = some (n, w.cnd) ∧ s.linked f < n := by
  cases hmode : s.mode f with
  | outside => simp [hmode, Mode.call] at hf
  | suspended op => simp [ConditionVariable.step, act, hmode] at hs
  | expired op =>
    obtain rfl : op = .wait w := by simpa [hmode, Mode.call] using hf
    have hover := h.sync.fibers.expired f _ hmode
    rw [Fibers.overdue, show Wait.deadline (SyncCall.wait w : SyncCall M C) = none from hw] at hover
    exact absurd hover Bool.false_ne_true
  | notified op =>
    obtain rfl : op = .wait w := by simpa [hmode, Mode.call] using hf
    exact ((h.fibers f).woken hmode).2.2

omit [DecidableEq F] [DecidableEq M] [DecidableEq C] in
theorem Inv.unlinked (h : Inv s) (hf : s.mode f = .outside) (k : SyncQueue M C) :
    f ∉ s.sync.fibers.queue k :=
  h.sync.fibers.not_linked (fun k => by rw [show s.sync.fibers.mode f = .outside from hf]; exact id) k

theorem State.relock_cases (s : State F M C) (f : F) (w : WaitCall M C) (timeout : Bool) :
    (s.relock f w timeout).returned = s.returned ∨
      s.relock f w timeout =
        State.relocked { s with sync := s.sync.take w.lt f } f w timeout := by
  rw [State.relock]
  split_ifs
  · exact .inl rfl
  · exact .inr rfl
  · exact .inl rfl

omit [DecidableEq M] [DecidableEq C] in
theorem Inv.returns_relocked {timeout : Bool} {a : Action F M C} (ht : Inv t) {u : State F M C}
    (htu : t.sync = (u.relocked f w timeout).sync)
    (hreturned : t.returned = (u.relocked f w timeout).returned) (hf : u.mode f = .outside)
    (howner : u.sync.owner w.lt = some f) :
    ∃ rs, t.returned = rs ++ u.returned ∧ ∀ r ∈ rs, Returned s a t r := by
  rw [State.relocked_sync] at htu
  rw [State.relocked] at hreturned
  split_ifs at hreturned with hw
  · exact ⟨[], hreturned, fun _ hr => absurd hr List.not_mem_nil⟩
  · refine ⟨[⟨f, w, !timeout⟩], hreturned, fun r hr => ?_⟩
    obtain rfl := List.mem_singleton.mp hr
    have hout : t.mode f = .outside := by
      rw [State.mode, htu]
      exact hf
    exact ⟨htu ▸ howner, hout, ht.unlinked hout, fun hp => absurd hp hw⟩

/-- Each step ends one wait at most, whose fiber owns the mutex by then. -/
theorem Inv.returns {a : Action F M C} (h : Inv s) (hs : ConditionVariable.step s a = some t) :
    ∃ rs, t.returned = rs ++ s.returned ∧ ∀ r ∈ rs, Returned s a t r := by
  have ht := h.step hs
  have hnone : t.returned = s.returned → ∃ rs, t.returned = rs ++ s.returned ∧
      ∀ r ∈ rs, Returned s a t r :=
    fun he => ⟨[], he, fun _ hr => absurd hr List.not_mem_nil⟩
  obtain ⟨u, hact, rfl⟩ := Option.map_eq_some_iff.mp hs
  cases acted hact with
  | lock hidle =>
    refine hnone ?_
    simp only [State.lock]
    split_ifs <;> rfl
  | tryLock hidle =>
    refine hnone ?_
    simp only [State.tryLock]
    split_ifs <;> rfl
  | unlock hidle =>
    refine hnone ?_
    simp only [State.unlock]
    split_ifs <;> rfl
  | check | wait | again | notifyOne | notifyAll | resumeLock | expire | tick => exact hnone rfl
  | @finish f w value timeout hphase hval =>
    have hout := (h.fibers f).outside_of_pred hphase
    have howner := ((h.fibers f).pred hphase).1
    refine ⟨[⟨f, w, value⟩], rfl, fun r hr => ?_⟩
    obtain rfl := List.mem_singleton.mp hr
    refine ⟨howner, hout, ht.unlinked hout, fun _ hvalue => ?_⟩
    simp only at hvalue
    exact ⟨by rw [hvalue], ⟨timeout, hphase⟩, hout, howner⟩
  | @resumeWait f w hmode =>
    rcases (s.unlink f).relock_cases f w (!s.sync.fibers.inTime (.wait w)) with hsame | htake
    · exact hnone hsame
    · have hsync := congrArg State.sync htake
      have hreturned := congrArg State.returned htake
      refine Inv.returns_relocked (u := { s.unlink f with sync := (s.unlink f).sync.take w.lt f }) ht
        hsync hreturned (Function.update_self _ _ _) ?_
      rw [Sync.take_owner, Function.update_self]
  | @resumeRelock f w timeout hmode =>
    exact Inv.returns_relocked (u := s.pick f) (w := w) (f := f) ht rfl rfl
      (Function.update_self _ _ _) (h.sync.handed w.lt f _ hmode rfl)

/-- Condition variables lose no notification: any number of fibers, under any schedule and clock. -/
theorem condition_protocol {clock : Nat} (hs : (machine F M C clock).Reachable s) : Protocol s := by
  have h := reachable_inv hs
  exact ⟨h.running, fun _ _ hf => h.found hf, h.order, fun _ _ ht => h.readies_one ht,
    fun _ _ ht => h.readies_all ht, fun _ _ _ ht hf hw => h.untimed ht hf hw,
    fun _ _ ht => h.returns ht⟩

/-- Two waiters wait for the mutex as well, one after a notification and one after its deadline. -/
theorem condition_protocol_relocked :
    ∃ s : State Nat Unit Unit,
      s.returned = [⟨2, ⟨(), (), some 5, false⟩, false⟩, ⟨1, ⟨(), (), none, true⟩, true⟩] ∧
        Protocol s := by
  obtain ⟨s, hs, hreturned⟩ : ∃ s, (machine Nat Unit Unit 0).exec (.initial 0)
      [.lock 1 (), .wait 1 ⟨(), (), none, true⟩, .pred 1 false, .lock 2 (),
        .wait 2 ⟨(), (), some 5, false⟩, .lock 0 (), .notifyOne (), .tick 5, .expire 2, .resume 1,
        .resume 2, .unlock 0 (), .resume 1, .pred 1 true, .unlock 1 (), .resume 2] = some s ∧
      s.returned = [⟨2, ⟨(), (), some 5, false⟩, false⟩, ⟨1, ⟨(), (), none, true⟩, true⟩] :=
    ⟨_, rfl, rfl⟩
  exact ⟨s, hreturned, condition_protocol (Machine.reachable_of_exec hs)⟩

end Dumbo.Fiber.ConditionVariable
