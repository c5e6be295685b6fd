import Dumbo.Lib.WaitQueues

/-!
# Mutexes and condition variables

Fibers that wait in the queues of mutexes and of condition variables. A mutex that is released goes to
the first fiber of its queue, which owns it from then on, resumed or not.
-/

namespace Transition

inductive SyncQueue (M C : Type*)
  | mutex (m : M)
  | condition (c : C)
  deriving DecidableEq, Repr

structure Sync (F M C ω : Type*) where
  fibers : Fibers F (SyncQueue M C) ω
  owner : M → Option F

variable {F M C ω : Type*}

namespace Sync

def initial (clock : Nat) : Sync F M C ω := ⟨.initial clock, fun _ => none⟩

section Steps

variable [DecidableEq M]

/-- The fiber acquires a mutex that is free. -/
def take (s : Sync F M C ω) (m : M) (f : F) : Sync F M C ω :=
  { s with owner := Function.update s.owner m (some f) }

variable [DecidableEq F] [DecidableEq C]

/-- Hand the mutex to the first fiber of its queue, or leave it free. -/
def release (s : Sync F M C ω) (m : M) : Sync F M C ω :=
  { fibers := s.fibers.wakeOne (.mutex m)
    owner := Function.update s.owner m (s.fibers.queue (.mutex m)).head? }

/-- `wait_link` in a condition variable, the release of the mutex and the suspension, in this order. -/
def waitOn (s : Sync F M C ω) (f : F) (m : M) (c : C) (op : ω) : Sync F M C ω :=
  let linked : Sync F M C ω := { s with fibers := s.fibers.waitLink f (.condition c) }
  { linked.release m with fibers := (linked.release m).fibers.suspend f op }

variable [Wait ω (SyncQueue M C)]

def park (s : Sync F M C ω) (f : F) (op : ω) : Sync F M C ω := { s with fibers := s.fibers.park f op }

end Steps

variable [Wait ω (SyncQueue M C)]

/-- What holds between the steps of the fibers. -/
structure Ok (s : Sync F M C ω) : Prop where
  fibers : s.fibers.WellFormed
  free : ∀ m, s.owner m = none → s.fibers.queue (.mutex m) = []
  /-- the owner does not wait for the mutex -/
  owner : ∀ m f, s.owner m = some f → f ∉ s.fibers.queue (.mutex m)
  /-- a fiber woken from the queue of a mutex owns it -/
  handed : ∀ m f op, s.fibers.mode f = .notified op → Wait.queue op = some (.mutex m) →
    s.owner m = some f

variable {s : Sync F M C ω} {f : F} {op : ω} {m : M} {c : C}

theorem Ok.initial (clock : Nat) : (initial clock : Sync F M C ω).Ok := by
  refine ⟨.initial clock, fun _ _ => rfl, fun _ _ h => ?_, fun _ _ _ h => ?_⟩
  · exact absurd h (by simp [Sync.initial])
  · exact absurd h (by simp [Sync.initial, Fibers.initial])

/-- A step of the fibers that leaves the mutexes alone: no fiber enters the queue of one, and none is
woken from it. -/
theorem Ok.step (h : s.Ok) {t : Fibers F (SyncQueue M C) ω} (ht : t.WellFormed)
    (hqueue : ∀ m, (t.queue (.mutex m)).Sublist (s.fibers.queue (.mutex m)))
    (hmode : ∀ m f op, t.mode f = .notified op → Wait.queue op = some (.mutex m) →
      s.fibers.mode f = .notified op) : Ok { s with fibers := t } := by
  refine ⟨ht, fun m hm => ?_, fun m f hm hf => ?_, fun m f op hf hop => ?_⟩
  · have hle := hqueue m
    rw [h.free m hm] at hle
    exact List.sublist_nil.mp hle
  · exact h.owner m f hm ((hqueue m).subset hf)
  · exact h.handed m f op (hmode m f op hf hop) hop

variable [DecidableEq M]

omit [Wait ω (SyncQueue M C)] in
theorem take_owner (s : Sync F M C ω) (m : M) (f : F) :
    (s.take m f).owner = Function.update s.owner m (some f) := rfl

theorem Ok.take (h : s.Ok) (hfree : s.owner m = none) (f : F) : (s.take m f).Ok := by
  refine ⟨h.fibers, fun m' hm => ?_, fun m' g hm => ?_, fun m' g op hg hop => ?_⟩
  · by_cases he : m' = m
    · subst he
      simp [Sync.take] at hm
    · rw [take_owner, Function.update_of_ne he] at hm
      exact h.free m' hm
  · by_cases he : m' = m
    · subst he
      show g ∉ s.fibers.queue (.mutex m')
      rw [h.free m' hfree]
      exact List.not_mem_nil
    · rw [take_owner, Function.update_of_ne he] at hm
      exact h.owner m' g hm
  · have howner := h.handed m' g op hg hop
    by_cases he : m' = m
    · subst he
      rw [hfree] at howner
      exact absurd howner (by simp)
    · rw [take_owner, Function.update_of_ne he]
      exact howner

variable [DecidableEq F] [DecidableEq C]

/-! ### The owner releases the mutex -/

omit [Wait ω (SyncQueue M C)] in
theorem release_owner (s : Sync F M C ω) (m : M) :
    (s.release m).owner = Function.update s.owner m (s.fibers.queue (.mutex m)).head? := rfl

omit [Wait ω (SyncQueue M C)] in
theorem release_queue (s : Sync F M C ω) (m : M) :
    (s.release m).fibers.queue =
      Function.update s.fibers.queue (.mutex m) (s.fibers.queue (.mutex m)).tail :=
  s.fibers.wakeOne_queue (.mutex m)

theorem Ok.release_fiber (h : s.Ok) (m : M) (g : F) :
    (s.release m).fibers.mode g = s.fibers.mode g ∧ (s.release m).owner m ≠ some g ∨
      ∃ op, (s.fibers.mode g = .suspended op ∨ s.fibers.mode g = .expired op) ∧
        Wait.queue op = some (.mutex m) ∧ (s.release m).fibers.mode g = .notified op ∧
        (s.release m).owner m = some g := by
  rw [release_owner, Function.update_self]
  show (s.fibers.wakeOne (.mutex m)).mode g = s.fibers.mode g ∧ _ ∨ _
  cases hqueue : s.fibers.queue (.mutex m) with
  | nil =>
    left
    simp [Fibers.wakeOne, hqueue]
  | cons first rest =>
    by_cases hg : g = first
    · right
      subst hg
      obtain ⟨op, hm, hop⟩ := h.fibers.of_mem (f := g) (k := .mutex m)
        (by rw [hqueue]; exact List.mem_cons_self)
      refine ⟨op, hm, hop, ?_, rfl⟩
      rw [← Mode.notify_of_waits hm]
      show (s.fibers.wakeOne (.mutex m)).mode g = _
      simp only [Fibers.wakeOne, hqueue]
      exact Function.update_self _ _ _
    · left
      refine ⟨?_, by simpa using Ne.symm hg⟩
      simp only [Fibers.wakeOne, hqueue]
      exact Function.update_of_ne hg _ _

theorem Ok.release (h : s.Ok) (hf : s.owner m = some f) (hm : s.fibers.mode f = .outside ∨
    ∃ op, s.fibers.mode f = .suspended op) : (s.release m).Ok := by
  refine ⟨h.fibers.wakeOne _, fun m' hfree => ?_, fun m' g howner => ?_, fun m' g op hg hop => ?_⟩
  · rw [release_queue]
    by_cases he : m' = m
    · subst he
      rw [release_owner, Function.update_self, List.head?_eq_none_iff] at hfree
      rw [Function.update_self, hfree]
      rfl
    · rw [release_owner, Function.update_of_ne he] at hfree
      rw [Function.update_of_ne (by simpa using he)]
      exact h.free m' hfree
  · rw [release_queue]
    by_cases he : m' = m
    · subst he
      rw [release_owner, Function.update_self] at howner
      have hnodup := h.fibers.nodup (.mutex m')
      rw [Function.update_self]
      cases hqueue : s.fibers.queue (.mutex m') with
      | nil => exact List.not_mem_nil
      | cons first rest =>
        rw [hqueue] at howner hnodup
        obtain rfl : first = g := Option.some.inj howner
        exact (List.nodup_cons.mp hnodup).1
    · rw [release_owner, Function.update_of_ne he] at howner
      rw [Function.update_of_ne (by simpa using he)]
      exact h.owner m' g howner
  · rcases h.release_fiber m g with ⟨hsame, _⟩ | ⟨op', _, hop', hlast, howner⟩
    · rw [hsame] at hg
      have howner := h.handed m' g op hg hop
      have he : m' ≠ m := by
        rintro rfl
        obtain rfl : f = g := Option.some.inj (hf.symm.trans howner)
        rcases hm with hm | ⟨_, hm⟩
        · rw [hm] at hg
          exact absurd hg (by simp)
        · rw [hm] at hg
          exact absurd hg (by simp)
      rw [release_owner, Function.update_of_ne he]
      exact howner
    · rw [hlast, Mode.notified.injEq] at hg
      subst hg
      have he : m = m' := by
        have heq := hop'.symm.trans hop
        simpa using heq
      exact he ▸ howner

/-! ### A fiber waits -/

theorem Ok.park_mutex (h : s.Ok) (hf : s.fibers.mode f = .outside)
    (hop : Wait.queue op = some (.mutex m)) {g : F} (howner : s.owner m = some g) (hg : g ≠ f) :
    (s.park f op).Ok := by
  have hmem : ∀ m' g', g' ∈ (s.park f op).fibers.queue (.mutex m') ↔
      g' ∈ s.fibers.queue (.mutex m') ∨ g' = f ∧ m = m' := by
    intro m' g'
    show g' ∈ Fibers.link s.fibers.queue (Wait.queue op) f (.mutex m') ↔ _
    rw [Fibers.mem_link, hop]
    simp
  refine ⟨h.fibers.park hf op, fun m' hfree => ?_, fun m' g' hm' hg' => ?_, fun m' g' op' hg' hop' => ?_⟩
  · have hqueue := h.free m' hfree
    have hne : m ≠ m' := by
      rintro rfl
      rw [show s.owner m = none from hfree] at howner
      exact absurd howner (by simp)
    rw [List.eq_nil_iff_forall_not_mem]
    intro g' hg'
    rcases (hmem m' g').mp hg' with hold | ⟨_, he⟩
    · rw [hqueue] at hold
      exact absurd hold List.not_mem_nil
    · exact hne he
  · rcases (hmem m' g').mp hg' with hold | ⟨rfl, rfl⟩
    · exact h.owner m' g' hm' hold
    · exact hg (Option.some.inj (howner.symm.trans hm'))
  · by_cases he : g' = f
    · rw [he] at hg'
      exact absurd hg' (by simp [Sync.park, Fibers.park, Fibers.setMode])
    · have hold : s.fibers.mode g' = .notified op' := by
        rw [← hg']
        exact (Function.update_of_ne he _ _).symm
      exact h.handed m' g' op' hold hop'

theorem Ok.park_condition (h : s.Ok) (hf : s.fibers.mode f = .outside)
    (hop : Wait.queue op = some (.condition c)) : (s.park f op).Ok := by
  refine h.step (h.fibers.park hf op) (fun m => ?_) fun m g op' hg _ => ?_
  · show (Fibers.link s.fibers.queue (Wait.queue op) f (.mutex m)).Sublist _
    rw [hop, Fibers.link, Function.update_of_ne (by simp)]
  · by_cases he : g = f
    · rw [he] at hg
      exact absurd hg (by simp [Fibers.park, Fibers.setMode])
    · rw [← hg]
      exact (Function.update_of_ne he _ _).symm

theorem Ok.waitOn_eq (h : s.Ok) (howner : s.owner m = some f) (hop : Wait.queue op = some (.condition c)) :
    s.waitOn f m c op = (s.park f op).release m := by
  have hqueue : (s.fibers.waitLink f (.condition c)).queue (.mutex m) = s.fibers.queue (.mutex m) := by
    simp [Fibers.waitLink, Fibers.link]
  have hhead : ((s.fibers.waitLink f (.condition c)).queue (.mutex m)).head? ≠ some f := by
    rw [hqueue]
    exact fun he => h.owner m f howner (List.mem_of_head? he)
  have hfibers := Fibers.wakeOne_suspend hhead op
  rw [← Fibers.park_eq s.fibers f hop] at hfibers
  have hrunning : ((s.fibers.park f op).wakeOne (.mutex m)).running = none := Fibers.wakeOne_running _ _
  rw [Sync.waitOn, Sync.park, Sync.release, Sync.release, hfibers, ← hrunning]
  simp only [Fibers.park_eq s.fibers f hop]
  rfl

/-! ### The other steps -/

theorem Ok.wakeOne (h : s.Ok) (c : C) : Ok { s with fibers := s.fibers.wakeOne (.condition c) } := by
  refine h.step (h.fibers.wakeOne _) (fun m => ?_) fun m g op hg hop => ?_
  · rw [Fibers.wakeOne_queue, Function.update_of_ne (by simp)]
  · rcases h.fibers.wakeOne_mode (.condition c) g with hsame | ⟨op', _, hop', hlast⟩
    · exact hsame ▸ hg
    · rw [hlast, Mode.notified.injEq] at hg
      rw [hg, hop] at hop'
      exact absurd hop' (by simp)

theorem Ok.wakeAll (h : s.Ok) (c : C) : Ok { s with fibers := s.fibers.wakeAll (.condition c) } := by
  refine h.step (h.fibers.wakeAll _) (fun m => ?_) fun m g op hg hop => ?_
  · rw [Fibers.wakeAll_queue, Function.update_of_ne (by simp)]
  · rcases h.fibers.wakeAll_mode (.condition c) g with hsame | ⟨op', _, hop', hlast⟩
    · exact hsame ▸ hg
    · rw [hlast, Mode.notified.injEq] at hg
      rw [hg, hop] at hop'
      exact absurd hop' (by simp)

omit [DecidableEq M] [DecidableEq C] in
theorem Ok.change (h : s.Ok) {t : Fibers F (SyncQueue M C) ω} (ht : t.WellFormed) {mode : Mode ω}
    (hqueue : ∀ m, (t.queue (.mutex m)).Sublist (s.fibers.queue (.mutex m)))
    (hmode : t.mode = Function.update s.fibers.mode f mode) (hnot : ∀ op, mode ≠ .notified op) :
    Ok { s with fibers := t } := by
  refine h.step ht hqueue fun m g op hg _ => ?_
  rw [hmode] at hg
  by_cases he : g = f
  · rw [he, Function.update_self] at hg
    exact absurd hg (hnot op)
  · rwa [Function.update_of_ne he] at hg

omit [DecidableEq M] [DecidableEq C] in
theorem Ok.expire (h : s.Ok) (hf : s.fibers.mode f = .suspended op)
    (hover : s.fibers.overdue op = true) : Ok { s with fibers := s.fibers.expire f op } :=
  h.change (h.fibers.expire hf hover) (fun _ => .refl _) rfl fun _ => by simp

omit [DecidableEq M] [DecidableEq C] in
theorem Ok.resumed (h : s.Ok) (hnot : ∀ k, f ∉ s.fibers.queue k) :
    Ok { s with fibers := s.fibers.pick f } :=
  h.change (h.fibers.resumed hnot) (fun _ => .refl _) rfl fun _ => by simp

omit [DecidableEq M] [DecidableEq C] in
theorem Ok.giveUp (h : s.Ok) : Ok { s with fibers := (s.fibers.waitUnlink f).pick f } :=
  h.change h.fibers.giveUp (fun _ => List.erase_sublist) rfl fun _ => by simp

omit [DecidableEq M] [DecidableEq F] [DecidableEq C] in
theorem Ok.tick (h : s.Ok) (n : Nat) : Ok { s with fibers := s.fibers.tick n } :=
  h.step (h.fibers.tick n) (fun _ => .refl _) fun _ _ _ hg _ => hg

end Sync

end Transition
