import Dumbo.Lib.Machine
import Mathlib.Data.List.Nodup

/-!
# Locks with a queue

The fibers of one thread use a lock: a fiber that cannot have it waits in a queue, and the one that
gives it up hands it to the first waiter. `Monitor` is the lock as its users see it, with or without
re-entrance; an implementation is a set of operations that agree with those of `Monitor` under a view.
-/

namespace Transition

/-- How a call of `lock` or `tryLock` has gone, up to the point where another fiber may run. -/
inductive Entry
  | acquired
  | blocked
  | failed
  | threw
  deriving DecidableEq, Repr

/-- How a call of `unlock` has gone, and the fiber it has woken. -/
inductive Exit (F : Type*)
  | released (woken : Option F)
  | threw
  deriving DecidableEq, Repr

structure LockOps (F μ : Type*) where
  owner : μ → Option F
  lock : μ → F → μ × Entry
  tryLock : μ → F → μ × Entry
  unlock : μ → F → μ × Exit F

/-! ### The lock -/

structure Monitor (F : Type*) where
  owner : Option F
  count : Nat
  queue : List F
  deriving DecidableEq, Repr

namespace Monitor

variable {F : Type*} [DecidableEq F]

def free : Monitor F := ⟨none, 0, []⟩

/-- The owner again. -/
def reenter (reentrant : Bool) (m : Monitor F) : Monitor F × Entry :=
  if reentrant then ({ m with count := m.count + 1 }, .acquired) else (m, .threw)

def lock (reentrant : Bool) (m : Monitor F) (f : F) : Monitor F × Entry :=
  match m.owner with
  | none => ({ m with owner := some f, count := 1 }, .acquired)
  | some g => if f = g then m.reenter reentrant else ({ m with queue := m.queue ++ [f] }, .blocked)

def tryLock (reentrant : Bool) (m : Monitor F) (f : F) : Monitor F × Entry :=
  match m.owner with
  | none => ({ m with owner := some f, count := 1 }, .acquired)
  | some g => if f = g then m.reenter reentrant else (m, .failed)

def unlock (m : Monitor F) (f : F) : Monitor F × Exit F :=
  if m.owner = some f then
    if 1 < m.count then ({ m with count := m.count - 1 }, .released none)
    else match m.queue with
      | [] => (free, .released none)
      | g :: rest => (⟨some g, 1, rest⟩, .released (some g))
  else (m, .threw)

def ops (reentrant : Bool) : LockOps F (Monitor F) where
  owner := owner
  lock := lock reentrant
  tryLock := tryLock reentrant
  unlock := unlock

variable {reentrant : Bool} {m : Monitor F} {f g : F}

omit [DecidableEq F] in
theorem reenter_entry :
    (m.reenter reentrant).1.owner = m.owner ∧
      ((m.reenter reentrant).2 = .acquired ∨ (m.reenter reentrant).2 = .threw) := by
  rw [reenter]
  split
  · exact ⟨rfl, .inl rfl⟩
  · exact ⟨rfl, .inr rfl⟩

theorem lock_free (h : m.owner = none) :
    m.lock reentrant f = (⟨some f, 1, m.queue⟩, .acquired) := by
  simp only [lock, h]

theorem lock_own (h : m.owner = some f) : m.lock reentrant f = m.reenter reentrant := by
  simp only [lock, h, if_true]

theorem lock_other (h : m.owner = some g) (hne : f ≠ g) :
    m.lock reentrant f = ({ m with queue := m.queue ++ [f] }, .blocked) := by
  rw [lock, h]
  simp only [if_neg hne]

theorem tryLock_free (h : m.owner = none) :
    m.tryLock reentrant f = (⟨some f, 1, m.queue⟩, .acquired) := by
  simp only [tryLock, h]

theorem tryLock_own (h : m.owner = some f) : m.tryLock reentrant f = m.reenter reentrant := by
  simp only [tryLock, h, if_true]

theorem tryLock_other (h : m.owner = some g) (hne : f ≠ g) :
    m.tryLock reentrant f = (m, .failed) := by
  simp only [tryLock, h, if_neg hne]

end Monitor

/-! ### The fibers that use it -/

namespace Locking

inductive Phase
  /-- outside of the calls -/
  | outside
  /-- in the queue -/
  | blocked
  /-- handed the lock, and still in `lock` -/
  | woken
  /-- in the yield of `tryLock`, which has acquired the lock or not -/
  | trying (acquired : Bool)
  deriving DecidableEq, Repr

structure State (F μ : Type*) where
  lock : μ
  /-- the fiber that runs -/
  active : F
  phase : F → Phase
  /-- the calls of `lock` and `tryLock` that have returned with the lock, without those that `unlock`
  has undone -/
  held : F → Nat
  /-- the fibers that have blocked, in order -/
  blocked : List F
  /-- the fibers that the lock has been handed to, in order -/
  handed : List F
  /-- for each `tryLock`, whether it has acquired the lock and what it has returned -/
  tries : List (Bool × Bool)

inductive Action (F : Type*)
  | lock
  | tryLock
  | unlock
  /-- the scheduler runs a fiber that is not blocked -/
  | switch (f : F)
  deriving DecidableEq, Repr

variable {F μ ν : Type*} [DecidableEq F]

namespace State

def setPhase (s : State F μ) (f : F) (phase : Phase) : State F μ :=
  { s with phase := Function.update s.phase f phase }

def setHeld (s : State F μ) (f : F) (n : Nat) : State F μ :=
  { s with held := Function.update s.held f n }

def wake (s : State F μ) : Option F → State F μ
  | none => s
  | some f => { s.setPhase f .woken with handed := s.handed ++ [f] }

/-- A fiber goes on. -/
def resume (ops : LockOps F μ) (s : State F μ) (f : F) : State F μ :=
  let s := { s with active := f }
  match s.phase f with
  | .outside | .blocked => s
  | .woken => (s.setPhase f .outside).setHeld f (s.held f + 1)
  | .trying acquired =>
    let result := decide (ops.owner s.lock = some f)
    { (s.setPhase f .outside).setHeld f (s.held f + result.toNat) with
      tries := s.tries ++ [(acquired, result)] }

/-- The lock after `lock` or `tryLock`, and where the fiber stands. -/
def enter (s : State F μ) : μ × Entry → State F μ
  | (m, .acquired) => { s.setHeld s.active (s.held s.active + 1) with lock := m }
  | (m, .blocked) =>
    { s.setPhase s.active .blocked with lock := m, blocked := s.blocked ++ [s.active] }
  | (m, .failed) | (m, .threw) => { s with lock := m }

def enterTry (s : State F μ) : μ × Entry → State F μ
  | (m, .acquired) => { s.setPhase s.active (.trying true) with lock := m }
  | (m, .blocked) | (m, .failed) => { s.setPhase s.active (.trying false) with lock := m }
  | (m, .threw) => { s with lock := m }

def leave (s : State F μ) : μ × Exit F → State F μ
  | (m, .released woken) => ({ s.setHeld s.active (s.held s.active - 1) with lock := m }).wake woken
  | (m, .threw) => { s with lock := m }

end State

def step (ops : LockOps F μ) (s : State F μ) : Action F → Option (State F μ)
  | .lock => if s.phase s.active = .outside then some (s.enter (ops.lock s.lock s.active)) else none
  | .tryLock =>
    if s.phase s.active = .outside then some (s.enterTry (ops.tryLock s.lock s.active)) else none
  | .unlock =>
    if s.phase s.active = .outside then some (s.leave (ops.unlock s.lock s.active)) else none
  | .switch f => if s.phase f = .blocked then none else some (s.resume ops f)

def initial (m : μ) (main : F) : State F μ := ⟨m, main, fun _ => .outside, fun _ => 0, [], [], []⟩

/-- The runs of the fibers on one thread, the lock being `m` at the start. -/
def machine (ops : LockOps F μ) (m : μ) (main : F) : Machine (State F μ) (Action F) :=
  ⟨initial m main, step ops⟩

end Locking

/-! ### What holds in all runs -/

namespace Locking

variable {F : Type*} [DecidableEq F] {reentrant : Bool} {s t : State F (Monitor F)}

/-- The acquisitions of a fiber whose call has not returned. -/
def Phase.pending : Phase → Nat
  | .woken | .trying true => 1
  | _ => 0

/-- The counter is the number of acquisitions of the owner, and no other fiber has any. -/
structure FiberOk (m : Monitor F) (f : F) (phase : Phase) (held : Nat) : Prop where
  owner : m.owner = some f → m.count = held + phase.pending ∧ phase ≠ .trying false
  other : m.owner ≠ some f → held = 0 ∧ phase.pending = 0
  queue : phase = .blocked ↔ f ∈ m.queue
  waits : m.owner = some f → f ∉ m.queue

structure Inv (reentrant : Bool) (s : State F (Monitor F)) : Prop where
  fibers : ∀ f, FiberOk s.lock f (s.phase f) (s.held f)
  free : s.lock.owner = none ↔ s.lock.count = 0
  queue : s.lock.owner = none → s.lock.queue = []
  nodup : s.lock.queue.Nodup
  fifo : s.blocked = s.handed ++ s.lock.queue
  tries : ∀ e ∈ s.tries, e.1 = e.2
  single : reentrant = false → s.lock.count ≤ 1

omit [DecidableEq F] in
theorem Inv.initial (main : F) : Inv reentrant (initial Monitor.free main) := by
  refine ⟨fun f => ⟨?_, fun _ => ⟨rfl, rfl⟩, ?_, ?_⟩, ⟨fun _ => rfl, fun _ => rfl⟩, fun _ => rfl,
    List.nodup_nil, rfl, ?_, fun _ => Nat.zero_le 1⟩
  · simp [Locking.initial, Monitor.free]
  · simp [Locking.initial, Monitor.free]
  · simp [Locking.initial, Monitor.free]
  · simp [Locking.initial]

theorem Inv.fibers_update (h : Inv reentrant s) (m : Monitor F) (f : F) (phase : Phase) (held : Nat)
    (hf : FiberOk m f phase held)
    (hm : ∀ g, g ≠ f → (m.owner = some g ↔ s.lock.owner = some g) ∧ (g ∈ m.queue ↔ g ∈ s.lock.queue))
    (hcount : ∀ g, g ≠ f → m.owner = some g → m.count = s.lock.count) (g : F) :
    FiberOk m g (Function.update s.phase f phase g) (Function.update s.held f held g) := by
  by_cases hg : g = f
  · subst hg
    rw [Function.update_self, Function.update_self]
    exact hf
  · rw [Function.update_of_ne hg, Function.update_of_ne hg]
    obtain ⟨howner, hqueue⟩ := hm g hg
    obtain ⟨hown, hother, hblocked, hwaits⟩ := h.fibers g
    refine ⟨fun hg' => ?_, fun hg' => hother (mt howner.mpr hg'), ?_, fun hg' => ?_⟩
    · rw [hcount g hg hg']
      exact hown (howner.mp hg')
    · rw [hqueue]
      exact hblocked
    · rw [hqueue]
      exact hwaits (howner.mp hg')

theorem Inv.take (h : Inv reentrant s) (hfree : s.lock.owner = none) (f : F) (phase : Phase)
    (held : Nat) (hphase : phase ≠ .blocked ∧ phase ≠ .trying false) (hheld : held + phase.pending = 1) :
    Inv reentrant { s with
      lock := ⟨some f, 1, s.lock.queue⟩
      phase := Function.update s.phase f phase
      held := Function.update s.held f held } := by
  have hqueue := h.queue hfree
  refine ⟨h.fibers_update ⟨some f, 1, s.lock.queue⟩ f phase held
      ⟨fun _ => ⟨hheld.symm, hphase.2⟩, fun hne => absurd rfl hne, ?_, fun _ => ?_⟩
    (fun g hg => ⟨?_, Iff.rfl⟩) fun g hg howner => ?_, ⟨?_, ?_⟩, ?_, h.nodup, h.fifo, h.tries,
    fun _ => Nat.le_refl 1⟩
  · rw [hqueue]
    exact ⟨fun hb => absurd hb hphase.1, fun hm => absurd hm List.not_mem_nil⟩
  · rw [hqueue]
    exact List.not_mem_nil
  · rw [hfree]
    simp [Ne.symm hg]
  · exact absurd (Option.some.inj howner).symm hg
  · simp
  · simp
  · simp

theorem Inv.retake (h : Inv reentrant s) {f : F} (howner : s.lock.owner = some f)
    (hreentrant : reentrant = true) (hout : s.phase f = .outside) (phase : Phase) (held : Nat)
    (hphase : phase ≠ .blocked ∧ phase ≠ .trying false)
    (hheld : held + phase.pending = s.held f + 1) :
    Inv reentrant { s with
      lock := { s.lock with count := s.lock.count + 1 }
      phase := Function.update s.phase f phase
      held := Function.update s.held f held } := by
  have hcount := ((h.fibers f).owner howner).1
  have hnot := (h.fibers f).waits howner
  rw [hout] at hcount
  have hpending : Phase.outside.pending = 0 := rfl
  refine ⟨h.fibers_update { s.lock with count := s.lock.count + 1 } f phase held
      ⟨fun _ => ⟨?_, hphase.2⟩, fun hne => absurd howner hne, ?_, fun _ => hnot⟩
    (fun g hg => ⟨Iff.rfl, Iff.rfl⟩) fun g hg howner' => ?_, ⟨?_, ?_⟩, ?_, h.nodup, h.fifo, h.tries, ?_⟩
  · show s.lock.count + 1 = _
    omega
  · exact ⟨fun hb => absurd hb hphase.1, fun hm => absurd hm hnot⟩
  · rw [howner] at howner'
    exact absurd (Option.some.inj howner').symm hg
  · intro hnone
    rw [howner] at hnone
    exact absurd hnone (by simp)
  · intro hzero
    exact absurd hzero (Nat.succ_ne_zero _)
  · intro hnone
    rw [howner] at hnone
    exact absurd hnone (by simp)
  · intro hf
    rw [hreentrant] at hf
    exact absurd hf (by decide)

theorem Inv.move (h : Inv reentrant s) (f : F) (phase : Phase) (held : Nat)
    (hf : FiberOk s.lock f phase held) (g : F) {tries : List (Bool × Bool)}
    (htries : ∀ e ∈ tries, e.1 = e.2) :
    Inv reentrant { s with
      active := g
      phase := Function.update s.phase f phase
      held := Function.update s.held f held
      tries := tries } :=
  ⟨h.fibers_update s.lock f phase held hf (fun _ _ => ⟨Iff.rfl, Iff.rfl⟩) fun _ _ _ => rfl, h.free, h.queue, h.nodup,
    h.fifo, htries, h.single⟩

theorem Inv.block (h : Inv reentrant s) {f g : F} (howner : s.lock.owner = some g) (hne : f ≠ g)
    (hout : s.phase f = .outside) :
    Inv reentrant { s with
      lock := { s.lock with queue := s.lock.queue ++ [f] }
      phase := Function.update s.phase f .blocked
      blocked := s.blocked ++ [f] } := by
  have hother := (h.fibers f).other (by
    rw [howner]
    exact fun he => hne (Option.some.inj he).symm)
  have hnot : f ∉ s.lock.queue := by
    intro hm
    have hblocked := (h.fibers f).queue.mpr hm
    rw [hout] at hblocked
    exact absurd hblocked (by decide)
  have hfibers := h.fibers_update { s.lock with queue := s.lock.queue ++ [f] } f .blocked (s.held f)
    ⟨fun ho => ?_, fun _ => ⟨hother.1, rfl⟩, ?_, fun ho => ?_⟩
    (fun d hd => ⟨Iff.rfl, ?_⟩) fun _ _ _ => rfl
  rw [Function.update_eq_self] at hfibers
  refine ⟨hfibers, h.free, fun hnone => ?_, ?_, ?_, h.tries, h.single⟩
  · rw [howner] at hnone
    exact absurd hnone (by simp)
  · show (s.lock.queue ++ [f]).Nodup
    rw [List.nodup_append]
    refine ⟨h.nodup, List.nodup_singleton f, fun d hd e he => ?_⟩
    rw [List.mem_singleton.mp he]
    rintro rfl
    exact hnot hd
  · show s.blocked ++ [f] = s.handed ++ (s.lock.queue ++ [f])
    rw [h.fifo, List.append_assoc]
  · rw [howner] at ho
    exact absurd (Option.some.inj ho).symm hne
  · simp
  · rw [howner] at ho
    exact absurd (Option.some.inj ho).symm hne
  · simp [hd]

theorem Inv.decrease (h : Inv reentrant s) {f : F} (howner : s.lock.owner = some f)
    (hout : s.phase f = .outside) (hcount : 1 < s.lock.count) :
    Inv reentrant { s with
      lock := { s.lock with count := s.lock.count - 1 }
      held := Function.update s.held f (s.held f - 1) } := by
  have hheld := ((h.fibers f).owner howner).1
  have hnot := (h.fibers f).waits howner
  rw [hout] at hheld
  have hpending : Phase.outside.pending = 0 := rfl
  have hfibers := h.fibers_update { s.lock with count := s.lock.count - 1 } f (s.phase f)
    (s.held f - 1) ⟨fun _ => ⟨?_, ?_⟩, fun hne => absurd howner hne,
      (h.fibers f).queue, fun _ => hnot⟩ (fun g hg => ⟨Iff.rfl, Iff.rfl⟩) fun g hg ho => ?_
  rw [Function.update_eq_self] at hfibers
  refine ⟨hfibers, ⟨fun hnone => ?_, fun hzero => ?_⟩, h.queue, h.nodup, h.fifo, h.tries, fun hr => ?_⟩
  · rw [howner] at hnone
    exact absurd hnone (by simp)
  · have hzero' : s.lock.count - 1 = 0 := hzero
    omega
  · have hle := h.single hr
    omega
  · rw [hout]
    show s.lock.count - 1 = s.held f - 1 + Phase.outside.pending
    omega
  · rw [hout]
    decide
  · rw [howner] at ho
    exact absurd (Option.some.inj ho).symm hg

omit [DecidableEq F] in
theorem Inv.released (h : Inv reentrant s) {f : F} (howner : s.lock.owner = some f)
    (hout : s.phase f = .outside) (hcount : ¬ 1 < s.lock.count) : s.held f - 1 = 0 := by
  have hheld := ((h.fibers f).owner howner).1
  rw [hout] at hheld
  have hpending : Phase.outside.pending = 0 := rfl
  omega

theorem Inv.unlock_free (h : Inv reentrant s) {f : F} (howner : s.lock.owner = some f)
    (hout : s.phase f = .outside) (hcount : ¬ 1 < s.lock.count) (hqueue : s.lock.queue = []) :
    Inv reentrant { s with
      lock := .free
      held := Function.update s.held f (s.held f - 1) } := by
  have hzero := h.released howner hout hcount
  have hblocked : ∀ g, s.phase g ≠ .blocked := by
    intro g hg
    have hm := (h.fibers g).queue.mp hg
    rw [hqueue] at hm
    exact absurd hm List.not_mem_nil
  refine ⟨fun g => ⟨fun ho => absurd ho (by simp [Monitor.free]), fun _ => ?_,
    ⟨fun hb => absurd hb (hblocked g), fun hm => absurd hm List.not_mem_nil⟩,
    fun _ => List.not_mem_nil⟩, ⟨fun _ => rfl, fun _ => rfl⟩, fun _ => rfl, List.nodup_nil, ?_, h.tries,
    fun _ => Nat.zero_le 1⟩
  · by_cases hg : g = f
    · subst hg
      simp only [Function.update_self, hout]
      exact ⟨hzero, rfl⟩
    · simp only [Function.update_of_ne hg]
      refine (h.fibers g).other ?_
      rw [howner]
      exact fun he => hg (Option.some.inj he).symm
  · rw [h.fifo, hqueue]
    rfl

theorem Inv.handOver (h : Inv reentrant s) {f w : F} {rest : List F} (howner : s.lock.owner = some f)
    (hout : s.phase f = .outside) (hcount : ¬ 1 < s.lock.count) (hqueue : s.lock.queue = w :: rest) :
    Inv reentrant { s with
      lock := ⟨some w, 1, rest⟩
      phase := Function.update s.phase w .woken
      held := Function.update s.held f (s.held f - 1)
      handed := s.handed ++ [w] } := by
  have hzero := h.released howner hout hcount
  have hnodup := h.nodup
  rw [hqueue, List.nodup_cons] at hnodup
  have hw : s.phase w = .blocked := (h.fibers w).queue.mpr (by rw [hqueue]; exact List.mem_cons_self)
  have hne : w ≠ f := by
    rintro rfl
    rw [hout] at hw
    exact absurd hw (by decide)
  have hownerne : ∀ g, g ≠ f → s.lock.owner ≠ some g := by
    intro g hg
    rw [howner]
    exact fun he => hg (Option.some.inj he).symm
  refine ⟨fun g => ?_, ⟨?_, ?_⟩, ?_, hnodup.2, ?_, h.tries, fun _ => Nat.le_refl 1⟩
  · by_cases hg : g = w
    · subst hg
      have hheld := ((h.fibers g).other (hownerne g hne)).1
      simp only [Function.update_self, Function.update_of_ne hne, hheld]
      exact ⟨fun _ => ⟨rfl, by decide⟩, fun hn => absurd rfl hn,
        ⟨fun hb => absurd hb (by decide), fun hm => absurd hm hnodup.1⟩, fun _ => hnodup.1⟩
    · have hmem : g ∈ rest ↔ g ∈ s.lock.queue := by
        rw [hqueue, List.mem_cons, or_iff_right hg]
      have howner' : some w ≠ some g := fun he => hg (Option.some.inj he).symm
      refine ⟨fun ho => absurd ho howner', fun _ => ?_, ?_, fun ho => absurd ho howner'⟩
      · by_cases hgf : g = f
        · subst hgf
          simp only [Function.update_self, Function.update_of_ne hg, hout]
          exact ⟨hzero, rfl⟩
        · simp only [Function.update_of_ne hgf, Function.update_of_ne hg]
          exact (h.fibers g).other (hownerne g hgf)
      · simp only [Function.update_of_ne hg]
        rw [hmem]
        exact (h.fibers g).queue
  · simp
  · simp
  · simp
  · show s.blocked = s.handed ++ [w] ++ rest
    rw [h.fifo, hqueue, List.append_assoc]
    rfl

theorem Inv.enter (h : Inv reentrant s) (hout : s.phase s.active = .outside) :
    Inv reentrant (s.enter (s.lock.lock reentrant s.active)) := by
  cases howner : s.lock.owner with
  | none =>
    rw [Monitor.lock_free howner]
    have hheld := ((h.fibers s.active).other (by rw [howner]; simp)).1
    have htake := h.take howner s.active (s.phase s.active) (s.held s.active + 1)
      (by rw [hout]; decide) (by rw [hheld, hout]; rfl)
    rw [Function.update_eq_self] at htake
    exact htake
  | some g =>
    by_cases hg : s.active = g
    · rw [Monitor.lock_own (hg ▸ howner), Monitor.reenter]
      by_cases hr : reentrant = true
      · rw [if_pos hr]
        have hretake := h.retake (hg ▸ howner) hr hout (s.phase s.active) (s.held s.active + 1)
          (by rw [hout]; decide) (by rw [hout]; rfl)
        rw [Function.update_eq_self] at hretake
        exact hretake
      · rw [if_neg hr]
        exact h
    · rw [Monitor.lock_other howner hg]
      exact h.block howner hg hout

theorem Inv.enterTry (h : Inv reentrant s) (hout : s.phase s.active = .outside) :
    Inv reentrant (s.enterTry (s.lock.tryLock reentrant s.active)) := by
  cases howner : s.lock.owner with
  | none =>
    rw [Monitor.tryLock_free howner]
    have hheld := ((h.fibers s.active).other (by rw [howner]; simp)).1
    have htake := h.take howner s.active (.trying true) (s.held s.active) (by decide)
      (by rw [hheld]; rfl)
    rw [Function.update_eq_self] at htake
    exact htake
  | some g =>
    by_cases hg : s.active = g
    · rw [Monitor.tryLock_own (hg ▸ howner), Monitor.reenter]
      by_cases hr : reentrant = true
      · rw [if_pos hr]
        have hretake := h.retake (hg ▸ howner) hr hout (.trying true) (s.held s.active) (by decide) rfl
        rw [Function.update_eq_self] at hretake
        exact hretake
      · rw [if_neg hr]
        exact h
    · rw [Monitor.tryLock_other howner hg]
      have hne : s.lock.owner ≠ some s.active := by
        rw [howner]
        exact fun he => hg (Option.some.inj he).symm
      obtain ⟨_, hother, hqueue, _⟩ := h.fibers s.active
      rw [hout] at hqueue
      have hmove := h.move s.active (.trying false) (s.held s.active)
        ⟨fun ho => absurd ho hne, fun _ => ⟨(hother hne).1, rfl⟩,
          ⟨fun hb => absurd hb (by decide), fun hm => absurd (hqueue.mpr hm) (by decide)⟩,
          fun ho => absurd ho hne⟩ s.active h.tries
      rw [Function.update_eq_self] at hmove
      exact hmove

theorem Inv.leave (h : Inv reentrant s) (hout : s.phase s.active = .outside) :
    Inv reentrant (s.leave (s.lock.unlock s.active)) := by
  rw [Monitor.unlock]
  by_cases howner : s.lock.owner = some s.active
  · rw [if_pos howner]
    by_cases hcount : 1 < s.lock.count
    · rw [if_pos hcount]
      exact h.decrease howner hout hcount
    · rw [if_neg hcount]
      cases hqueue : s.lock.queue with
      | nil => exact h.unlock_free howner hout hcount hqueue
      | cons w rest => exact h.handOver howner hout hcount hqueue
  · rw [if_neg howner]
    exact h

/-- What a call returns agrees with what it has done. -/
theorem Inv.resume (h : Inv reentrant s) (f : F) : Inv reentrant (s.resume (Monitor.ops reentrant) f) := by
  have hf := h.fibers f
  simp only [State.resume]
  split
  · exact ⟨h.fibers, h.free, h.queue, h.nodup, h.fifo, h.tries, h.single⟩
  · exact ⟨h.fibers, h.free, h.queue, h.nodup, h.fifo, h.tries, h.single⟩
  · rename_i hphase
    replace hphase : s.phase f = .woken := hphase
    rw [hphase] at hf
    have howner : s.lock.owner = some f := by
      by_contra hne
      exact absurd (hf.other hne).2 (by decide)
    refine h.move f .outside (s.held f + 1)
      ⟨fun _ => ⟨(hf.owner howner).1, by decide⟩, fun hne => absurd howner hne, ?_, hf.waits⟩ f h.tries
    exact ⟨fun hb => absurd hb (by decide), fun hm => absurd hm (hf.waits howner)⟩
  · rename_i acquired hphase
    replace hphase : s.phase f = .trying acquired := hphase
    rw [hphase] at hf
    have hresult : acquired = decide (s.lock.owner = some f) := by
      cases acquired with
      | true =>
        by_contra hne
        exact absurd (hf.other fun ho => hne (decide_eq_true ho).symm).2 (by decide)
      | false => exact (decide_eq_false fun ho => (hf.owner ho).2 rfl).symm
    refine h.move f .outside (s.held f + (decide (s.lock.owner = some f)).toNat)
      ⟨fun ho => ?_, fun hne => ?_, ?_, hf.waits⟩ f fun e he => ?_
    · have hcount := (hf.owner ho).1
      rw [hresult, decide_eq_true ho] at hcount
      exact ⟨by rw [hcount, decide_eq_true ho]; rfl, by decide⟩
    · have hdecide : decide (s.lock.owner = some f) = false := decide_eq_false hne
      exact ⟨by rw [(hf.other hne).1, hdecide]; rfl, rfl⟩
    · exact ⟨fun hb => absurd hb (by decide), fun hm => absurd (hf.queue.mpr hm) (by simp)⟩
    · rcases List.mem_append.mp he with he | he
      · exact h.tries e he
      · rw [List.mem_singleton.mp he]
        exact hresult

theorem Inv.step {a : Action F} (h : Inv reentrant s)
    (hs : step (Monitor.ops reentrant) s a = some t) : Inv reentrant t := by
  cases a with
  | lock =>
    rw [Locking.step, Option.ite_none_right_eq_some, Option.some.injEq] at hs
    exact hs.2 ▸ h.enter hs.1
  | tryLock =>
    rw [Locking.step, Option.ite_none_right_eq_some, Option.some.injEq] at hs
    exact hs.2 ▸ h.enterTry hs.1
  | unlock =>
    rw [Locking.step, Option.ite_none_right_eq_some, Option.some.injEq] at hs
    exact hs.2 ▸ h.leave hs.1
  | switch f =>
    rw [Locking.step, Option.ite_none_left_eq_some, Option.some.injEq] at hs
    exact hs.2 ▸ h.resume f

theorem Inv.of_reachable {main : F} (h : (machine (Monitor.ops reentrant) .free main).Reachable s) :
    Inv reentrant s :=
  h.invariant (P := Inv reentrant) (.initial main) fun _ _ _ hi hs => hi.step hs

theorem Inv.acquired (h : Inv reentrant s) (f : F) :
    0 < s.held f + (s.phase f).pending ↔ s.lock.owner = some f := by
  constructor
  · intro hpos
    by_contra hne
    obtain ⟨hheld, hpending⟩ := (h.fibers f).other hne
    omega
  · intro howner
    have hcount := ((h.fibers f).owner howner).1
    have hne : s.lock.count ≠ 0 := by
      intro hzero
      rw [h.free.mpr hzero] at howner
      exact absurd howner (by simp)
    omega

/-- While fibers wait, the lock stays with its owner or goes to the first of them. -/
theorem Inv.passes (h : Inv reentrant s) {w : F} {rest : List F} (hqueue : s.lock.queue = w :: rest)
    {a : Action F} (hs : Locking.step (Monitor.ops reentrant) s a = some t) :
    t.lock.owner = s.lock.owner ∧ (∃ l, t.lock.queue = s.lock.queue ++ l) ∧ t.handed = s.handed ∨
      a = .unlock ∧ t.lock.owner = some w ∧ t.lock.queue = rest ∧ t.handed = s.handed ++ [w] := by
  obtain ⟨g, howner⟩ : ∃ g, s.lock.owner = some g := by
    rw [← Option.ne_none_iff_exists']
    intro hnone
    rw [h.queue hnone] at hqueue
    exact absurd hqueue (by simp)
  cases a with
  | lock =>
    rw [Locking.step, Option.ite_none_right_eq_some, Option.some.injEq] at hs
    obtain ⟨_, rfl⟩ := hs
    left
    simp only [Monitor.ops]
    by_cases hg : s.active = g
    · rw [Monitor.lock_own (hg ▸ howner), Monitor.reenter]
      split <;> exact ⟨rfl, ⟨[], (List.append_nil _).symm⟩, rfl⟩
    · rw [Monitor.lock_other howner hg]
      exact ⟨rfl, ⟨[s.active], rfl⟩, rfl⟩
  | tryLock =>
    rw [Locking.step, Option.ite_none_right_eq_some, Option.some.injEq] at hs
    obtain ⟨_, rfl⟩ := hs
    left
    simp only [Monitor.ops]
    by_cases hg : s.active = g
    · rw [Monitor.tryLock_own (hg ▸ howner), Monitor.reenter]
      split <;> exact ⟨rfl, ⟨[], (List.append_nil _).symm⟩, rfl⟩
    · rw [Monitor.tryLock_other howner hg]
      exact ⟨rfl, ⟨[], (List.append_nil _).symm⟩, rfl⟩
  | unlock =>
    rw [Locking.step, Option.ite_none_right_eq_some, Option.some.injEq] at hs
    obtain ⟨_, rfl⟩ := hs
    simp only [Monitor.ops, Monitor.unlock]
    split_ifs with hown hcount
    · exact .inl ⟨rfl, ⟨[], (List.append_nil _).symm⟩, rfl⟩
    · rw [hqueue]
      exact .inr ⟨trivial, rfl, rfl, rfl⟩
    · exact .inl ⟨rfl, ⟨[], (List.append_nil _).symm⟩, rfl⟩
  | switch f =>
    rw [Locking.step, Option.ite_none_left_eq_some, Option.some.injEq] at hs
    obtain ⟨_, rfl⟩ := hs
    left
    rw [State.resume]
    split <;> exact ⟨rfl, ⟨[], (List.append_nil _).symm⟩, rfl⟩

/-! ### Implementations -/

variable {μ ν : Type*}

/-- What the calls of `lock` and `tryLock` do to a lock, the queue of which is given by `queue`. -/
structure Entering (ops : LockOps F μ) (queue : μ → List F) (m : μ) : Prop where
  /-- `lock` that does not block returns to the owner, or throws -/
  lock_acquired : ∀ f, (ops.lock m f).2 = .acquired → ops.owner (ops.lock m f).1 = some f
  lock_failed : ∀ f, (ops.lock m f).2 ≠ .failed
  /-- `lock` blocks behind another owner only, at the end of the queue -/
  lock_blocked : ∀ f, (ops.lock m f).2 = .blocked →
    (∃ g, g ≠ f ∧ ops.owner m = some g ∧ ops.owner (ops.lock m f).1 = some g) ∧
      queue (ops.lock m f).1 = queue m ++ [f]
  lock_free : ∀ f, ops.owner m = none → (ops.lock m f).2 = .acquired
  tryLock_acquired : ∀ f, (ops.tryLock m f).2 = .acquired → ops.owner (ops.tryLock m f).1 = some f
  tryLock_free : ∀ f, ops.owner m = none → (ops.tryLock m f).2 = .acquired
  tryLock_other : ∀ f g, ops.owner m = some g → f ≠ g →
    (ops.tryLock m f).2 = .failed ∧ ops.owner (ops.tryLock m f).1 = some g ∧
      queue (ops.tryLock m f).1 = queue m

/-- What the users of a lock rely on, the queue of the lock being given by `queue`. -/
structure Exclusive (ops : LockOps F μ) (queue : μ → List F) (s : State F μ) : Prop where
  entering : Entering ops queue s.lock
  /-- a fiber that has been handed the lock owns it when `lock` returns to it -/
  returns : ∀ f, s.phase f = .woken → ∃ t, step ops s (.switch f) = some t ∧ t.active = f ∧
    t.phase f = .outside ∧ t.held f = s.held f + 1 ∧ ops.owner t.lock = some f
  /-- the fibers with an acquisition that has not been undone: the owner and no other -/
  holder : ∀ f, 0 < s.held f + (s.phase f).pending ↔ ops.owner s.lock = some f
  /-- the blocked fibers are those in the queue -/
  waiting : ∀ f, s.phase f = .blocked ↔ f ∈ queue s.lock
  /-- no waiter is forgotten -/
  owned : queue s.lock ≠ [] → ops.owner s.lock ≠ none
  /-- the lock has been handed to the fibers in the order in which they have blocked -/
  fifo : s.blocked = s.handed ++ queue s.lock
  /-- in front of waiters the lock goes to the first of them only -/
  passes : ∀ w rest, queue s.lock = w :: rest → ∀ a t, step ops s a = some t →
    ops.owner t.lock = ops.owner s.lock ∧ (∃ l, queue t.lock = queue s.lock ++ l) ∧
        t.handed = s.handed ∨
      a = .unlock ∧ ops.owner t.lock = some w ∧ queue t.lock = rest ∧ t.handed = s.handed ++ [w]
  /-- `tryLock` has returned whether it has acquired the lock -/
  tries : ∀ e ∈ s.tries, e.1 = e.2

/-- The operations are those of another lock, under a view. -/
structure Agree (ops : LockOps F μ) (ops' : LockOps F ν) (view : μ → ν) : Prop where
  owner : ∀ m, ops'.owner (view m) = ops.owner m
  lock : ∀ m f, ops'.lock (view m) f = (view (ops.lock m f).1, (ops.lock m f).2)
  tryLock : ∀ m f, ops'.tryLock (view m) f = (view (ops.tryLock m f).1, (ops.tryLock m f).2)
  unlock : ∀ m f, ops'.unlock (view m) f = (view (ops.unlock m f).1, (ops.unlock m f).2)

def State.map (view : μ → ν) (s : State F μ) : State F ν where
  lock := view s.lock
  active := s.active
  phase := s.phase
  held := s.held
  blocked := s.blocked
  handed := s.handed
  tries := s.tries

theorem Agree.step {ops : LockOps F μ} {ops' : LockOps F ν} {view : μ → ν} (h : Agree ops ops' view)
    {s t : State F μ} {a : Action F} (hs : step ops s a = some t) :
    Locking.step ops' (s.map view) a = some (t.map view) := by
  cases a with
  | lock =>
    rw [Locking.step, Option.ite_none_right_eq_some, Option.some.injEq] at hs ⊢
    refine ⟨hs.1, ?_⟩
    rw [← hs.2, State.map, h.lock]
    obtain ⟨m, entry⟩ := ops.lock s.lock s.active
    cases entry <;> rfl
  | tryLock =>
    rw [Locking.step, Option.ite_none_right_eq_some, Option.some.injEq] at hs ⊢
    refine ⟨hs.1, ?_⟩
    rw [← hs.2, State.map, h.tryLock]
    obtain ⟨m, entry⟩ := ops.tryLock s.lock s.active
    cases entry <;> rfl
  | unlock =>
    rw [Locking.step, Option.ite_none_right_eq_some, Option.some.injEq] at hs ⊢
    refine ⟨hs.1, ?_⟩
    rw [← hs.2, State.map, h.unlock]
    obtain ⟨m, exit⟩ := ops.unlock s.lock s.active
    cases exit with
    | released woken => cases woken <;> rfl
    | threw => rfl
  | switch f =>
    rw [Locking.step, Option.ite_none_left_eq_some, Option.some.injEq] at hs ⊢
    refine ⟨hs.1, ?_⟩
    rw [← hs.2, State.resume, State.resume]
    simp only [State.map, h.owner]
    cases hphase : s.phase f <;> simp only [State.setPhase, State.setHeld]

theorem Agree.reachable {ops : LockOps F μ} {ops' : LockOps F ν} {view : μ → ν}
    (h : Agree ops ops' view) {m : μ} {main : F} {s : State F μ}
    (hs : (machine ops m main).Reachable s) : (machine ops' (view m) main).Reachable (s.map view) :=
  hs.map (State.map view) rfl fun _ _ _ => h.step

theorem Monitor.entering (m : Monitor F) : Entering (Monitor.ops reentrant) Monitor.queue m := by
  cases howner : m.owner with
  | none =>
    have hlock : ∀ f, m.lock reentrant f = (⟨some f, 1, m.queue⟩, .acquired) :=
      fun f => Monitor.lock_free howner
    have htry : ∀ f, m.tryLock reentrant f = (⟨some f, 1, m.queue⟩, .acquired) :=
      fun f => Monitor.tryLock_free howner
    constructor <;> simp [Monitor.ops, hlock, htry, howner]
  | some g =>
    have hown : (Monitor.ops reentrant).lock m g = m.reenter reentrant ∧
        (Monitor.ops reentrant).tryLock m g = m.reenter reentrant :=
      ⟨Monitor.lock_own howner, Monitor.tryLock_own howner⟩
    have hother : ∀ f, f ≠ g →
        (Monitor.ops reentrant).lock m f = ({ m with queue := m.queue ++ [f] }, .blocked) ∧
          (Monitor.ops reentrant).tryLock m f = (m, .failed) :=
      fun f hf => ⟨Monitor.lock_other howner hf, Monitor.tryLock_other howner hf⟩
    obtain ⟨howner', hentry⟩ := @Monitor.reenter_entry F reentrant m
    rw [howner] at howner'
    refine ⟨fun f h => ?_, fun f => ?_, fun f h => ?_, fun f h => ?_, fun f h => ?_, fun f h => ?_,
      fun f g' hg hf => ?_⟩
    · by_cases hf : f = g
      · rw [hf, hown.1]
        exact howner'
      · rw [(hother f hf).1] at h
        cases h
    · by_cases hf : f = g
      · rw [hf, hown.1]
        rcases hentry with he | he <;> simp [he]
      · simp [(hother f hf).1]
    · by_cases hf : f = g
      · rw [hf, hown.1] at h
        rcases hentry with he | he <;> simp [he] at h
      · rw [(hother f hf).1]
        exact ⟨⟨g, Ne.symm hf, howner, howner⟩, rfl⟩
    · cases howner.symm.trans h
    · by_cases hf : f = g
      · rw [hf, hown.2]
        exact howner'
      · rw [(hother f hf).2] at h
        cases h
    · cases howner.symm.trans h
    · have heq : g = g' := Option.some.inj (howner.symm.trans hg)
      rw [(hother f (heq ▸ hf)).2]
      exact ⟨rfl, hg, rfl⟩

omit [DecidableEq F] in
theorem Agree.entering {ops : LockOps F μ} {ops' : LockOps F ν} {view : μ → ν} (h : Agree ops ops' view)
    {queue : ν → List F} {m : μ} (hm : Entering ops' queue (view m)) :
    Entering ops (fun m => queue (view m)) m := by
  obtain ⟨hacquired, hfailed, hblocked, hfree, htryAcquired, htryFree, htryOther⟩ := hm
  simp only [h.lock, h.tryLock, h.owner] at hacquired hfailed hblocked hfree htryAcquired htryFree htryOther
  exact ⟨hacquired, hfailed, hblocked, hfree, htryAcquired, htryFree, htryOther⟩

/-- A lock that agrees with the monitor. -/
theorem Agree.exclusive {ops : LockOps F μ} {view : μ → Monitor F}
    (h : Agree ops (Monitor.ops reentrant) view) {m : μ} (hm : view m = .free) {main : F}
    {s : State F μ} (hs : (machine ops m main).Reachable s) :
    Inv reentrant (s.map view) ∧ Exclusive ops (fun m => (view m).queue) s := by
  have hinv : Inv reentrant (s.map view) := Inv.of_reachable (hm ▸ h.reachable hs)
  have hholder : ∀ f, 0 < s.held f + (s.phase f).pending ↔ ops.owner s.lock = some f := by
    intro f
    rw [← h.owner]
    exact hinv.acquired f
  refine ⟨hinv, h.entering (Monitor.entering (view s.lock)), fun f hf => ?_, hholder,
    fun f => (hinv.fibers f).queue, fun hne hnone => hne (hinv.queue ?_), hinv.fifo,
    fun w rest hqueue a t ht => ?_, hinv.tries⟩
  · have howner : ops.owner s.lock = some f := (hholder f).mp (by rw [hf]; exact Nat.succ_pos _)
    have hswitch : Locking.step ops s (.switch f) = some (s.resume ops f) := if_neg (by rw [hf]; decide)
    refine ⟨_, hswitch, ?_⟩
    rw [State.resume]
    simp only [hf]
    exact ⟨rfl, Function.update_self .., Function.update_self .., howner⟩
  · rw [← h.owner] at hnone
    exact hnone
  · rw [← h.owner, ← h.owner]
    exact hinv.passes hqueue (h.step ht)

end Locking

end Transition
