import Dumbo.Fiber.ConditionProtocol

/-!
# What a step with condition variables leaves to the other fibers
-/

namespace Dumbo.Fiber

open Transition

namespace ConditionVariable

variable {F M C : Type*}

/-- A fiber does nothing in the step; it may be woken and handed the mutex that it waits for. -/
structure Aside (s t : State F M C) (g : F) : Prop where
  call : (t.mode g).call = (s.mode g).call
  waits : ∀ op, t.mode g = .suspended op ∨ t.mode g = .expired op →
    s.mode g = .suspended op ∨ s.mode g = .expired op
  phase : t.phase g = s.phase g
  kept : ∀ m, s.sync.owner m = some g → t.sync.owner m = some g
  handed : ∀ m, t.sync.owner m = some g → s.sync.owner m = some g ∨
    ∃ op, (s.mode g).call = some op ∧ Wait.queue op = some (.mutex m)

variable {s t : State F M C} {f g : F} {w : WaitCall M C}

theorem Aside.of_same (hmode : t.mode g = s.mode g) (hphase : t.phase g = s.phase g)
    (howner : ∀ m, t.sync.owner m = some g ↔ s.sync.owner m = some g) : Aside s t g :=
  ⟨by rw [hmode], fun _ hm => hmode ▸ hm, hphase, fun m hm => (howner m).mpr hm,
    fun m hm => .inl ((howner m).mp hm)⟩

theorem Aside.count (h : Aside s t g) : Aside s t.count g := ⟨h.call, h.waits, h.phase, h.kept, h.handed⟩

theorem Aside.of_woken {op : SyncCall M C} (hm : s.mode g = .suspended op ∨ s.mode g = .expired op)
    (hmode : t.mode g = .notified op) (hphase : t.phase g = s.phase g)
    (hkept : ∀ m, s.sync.owner m = some g → t.sync.owner m = some g)
    (hhanded : ∀ m, t.sync.owner m = some g → s.sync.owner m = some g ∨ Wait.queue op = some (.mutex m)) :
    Aside s t g := by
  have hcall : (s.mode g).call = some op := by
    rcases hm with hm | hm
    · rw [hm]
      rfl
    · rw [hm]
      rfl
  refine ⟨?_, fun op' hw => ?_, hphase, hkept, fun m howner => ?_⟩
  · rw [hcall, hmode]
    rfl
  · rw [hmode] at hw
    simp at hw
  · exact (hhanded m howner).imp id fun hop => ⟨op, hcall, hop⟩

theorem Aside.of_released {mtx : M}
    (hrelease : t.mode g = s.mode g ∧ t.sync.owner mtx ≠ some g ∨
      ∃ op, (s.mode g = .suspended op ∨ s.mode g = .expired op) ∧ Wait.queue op = some (.mutex mtx) ∧
        t.mode g = .notified op ∧ t.sync.owner mtx = some g)
    (howner : s.sync.owner mtx = some f) (hg : f ≠ g)
    (hothers : ∀ m, m ≠ mtx → t.sync.owner m = s.sync.owner m) (hphase : t.phase g = s.phase g) :
    Aside s t g := by
  have hnot : s.sync.owner mtx ≠ some g := by
    rw [howner]
    simpa using hg
  rcases hrelease with ⟨hsame, hfree⟩ | ⟨op, hm, hop, hlast, _⟩
  · refine .of_same hsame hphase fun m => ?_
    by_cases hmtx : m = mtx
    · subst hmtx
      exact ⟨fun h => absurd h hfree, fun h => absurd h hnot⟩
    · rw [hothers m hmtx]
  · refine .of_woken hm hlast hphase (fun m hmine => ?_) fun m hmine => ?_
    · have hmtx : m ≠ mtx := fun he => hnot (he ▸ hmine)
      rw [hothers m hmtx]
      exact hmine
    · by_cases hmtx : m = mtx
      · exact .inr (hmtx ▸ hop)
      · exact .inl (hothers m hmtx ▸ hmine)

variable [DecidableEq F] [DecidableEq M] [DecidableEq C]

omit [DecidableEq F] [DecidableEq C] in
theorem Aside.take (hg : f ≠ g) {mtx : M} (hfree : s.sync.owner mtx = none) :
    Aside s { s with sync := s.sync.take mtx f } g := by
  refine .of_same rfl rfl fun m => ?_
  show (s.sync.take mtx f).owner m = some g ↔ _
  rw [Sync.take_owner]
  by_cases hm : m = mtx
  · subst hm
    simp [hfree, hg]
  · rw [Function.update_of_ne hm]

theorem Aside.lock (hg : f ≠ g) (mtx : M) : Aside s (s.lock f mtx) g := by
  rw [State.lock]
  split_ifs with hown hfree
  · exact .of_same rfl rfl fun _ => Iff.rfl
  · exact .take hg hfree
  · exact .of_same (Function.update_of_ne hg.symm _ _) rfl fun _ => Iff.rfl

theorem Aside.unlock (h : Inv s) (hg : f ≠ g) (mtx : M) : Aside s (s.unlock f mtx) g := by
  rw [State.unlock]
  split_ifs with hown
  · exact .of_same rfl rfl fun _ => Iff.rfl
  · exact .of_released (h.sync.release_fiber mtx g) (not_not.mp hown) hg
      (fun m hm => Function.update_of_ne hm _ _) rfl

theorem Aside.block (h : Inv s) (hg : f ≠ g) (hf : s.mode f = .outside)
    (howner : s.sync.owner w.lt = some f) : Aside s (s.block f w) g := by
  have hparked : (s.sync.park f (.wait w)).Ok := h.sync.park_condition hf rfl
  have hmode : (s.sync.park f (.wait w)).fibers.mode g = s.mode g := Function.update_of_ne hg.symm _ _
  rw [State.block, h.sync.waitOn_eq howner (SyncCall.queue_wait w)]
  exact .of_released (hmode ▸ hparked.release_fiber w.lt g) howner hg
    (fun m hm => Function.update_of_ne hm _ _) (Function.update_of_ne hg.symm _ _)

theorem Aside.notifyAll (h : Inv s) (cnd : C) (g : F) : Aside s (s.notifyAll cnd) g := by
  rcases h.sync.fibers.wakeAll_mode (.condition cnd) g with hsame | ⟨op, hm, _, hlast⟩
  · exact .of_same hsame rfl fun _ => Iff.rfl
  · exact .of_woken hm hlast rfl (fun _ => id) fun _ => .inl

omit [DecidableEq M] [DecidableEq C] in
theorem Aside.relocked (hg : f ≠ g) (timeout : Bool) : Aside s (s.relocked f w timeout) g := by
  have hsync := s.relocked_sync f w timeout
  refine .of_same ?_ ?_ fun m => ?_
  · rw [State.mode, hsync]
    rfl
  · rw [State.relocked]
    split_ifs <;> exact Function.update_of_ne hg.symm _ _
  · rw [hsync]

omit [DecidableEq F] [DecidableEq M] [DecidableEq C] in
theorem Aside.trans {u : State F M C} (h : Aside s t g) (h' : Aside t u g) : Aside s u g := by
  refine ⟨h'.call.trans h.call, fun op hm => h.waits op (h'.waits op hm), h'.phase.trans h.phase,
    fun m hm => h'.kept m (h.kept m hm), fun m hm => ?_⟩
  rcases h'.handed m hm with hm | ⟨op, hcall, hop⟩
  · exact h.handed m hm
  · exact .inr ⟨op, h.call ▸ hcall, hop⟩

theorem Aside.resumeWait (hg : f ≠ g) : Aside s (s.resumeWait f w) g := by
  have hunlink : Aside s (s.unlink f) g :=
    .of_same (Function.update_of_ne hg.symm _ _) rfl fun _ => Iff.rfl
  refine hunlink.trans ?_
  rw [State.resumeWait, State.relock]
  split_ifs with hown hfree
  · exact .of_same rfl rfl fun _ => Iff.rfl
  · exact (Aside.take hg hfree).trans (.relocked hg _)
  · exact .of_same (Function.update_of_ne hg.symm _ _) rfl fun _ => Iff.rfl

theorem Aside.resume (hs : step s (.resume f) = some t) (hg : f ≠ g) : Aside s t g := by
  obtain ⟨u, hact, rfl⟩ := Option.map_eq_some_iff.mp hs
  refine Aside.count ?_
  have hpick : Aside s (s.pick f) g :=
    .of_same (Function.update_of_ne hg.symm _ _) rfl fun _ => Iff.rfl
  cases acted hact with
  | resumeWait hmode => exact .resumeWait hg
  | resumeLock hmode => exact hpick
  | resumeRelock hmode => exact hpick.trans (.relocked hg _)

theorem Aside.expire (hs : step s (.expire f) = some t) (g : F) : Aside s t g := by
  obtain ⟨u, hact, rfl⟩ := Option.map_eq_some_iff.mp hs
  refine Aside.count ?_
  cases acted hact with
  | @expire f op hmode hover =>
    by_cases hg : g = f
    · subst hg
      have hlast : State.mode { s with sync := { s.sync with fibers := s.sync.fibers.expire g op } } g =
          .expired op := Function.update_self _ _ _
      refine ⟨?_, fun op' hm => ?_, rfl, fun _ => id, fun _ => .inl⟩
      · rw [hlast, hmode]
        rfl
      · rw [hlast] at hm
        exact .inl (by simpa [hmode] using hm)
    · exact .of_same (Function.update_of_ne hg _ _) rfl fun _ => Iff.rfl

theorem Aside.tick {n : Nat} (hs : step s (.tick n) = some t) (g : F) : Aside s t g := by
  obtain ⟨u, hact, rfl⟩ := Option.map_eq_some_iff.mp hs
  cases acted hact with
  | tick => exact Aside.count (.of_same rfl rfl fun _ => Iff.rfl)

end ConditionVariable

end Dumbo.Fiber
