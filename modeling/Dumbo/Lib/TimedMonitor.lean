import Dumbo.Lib.Monitor

/-!
# Locks with a queue and deadlines

The lock of `Monitor` with a further call, which gives up at a deadline. The lock may be handed to a
fiber whose deadline passes before it is resumed. Readings of the clock never decrease.
-/

namespace Transition

structure TimedLockOps (F μ : Type*) extends LockOps F μ where
  /-- the call with a deadline that has not passed, up to the point where the fiber is suspended -/
  tryUntil : μ → F → μ × Entry
  waitUnlink : μ → F → μ
  /-- what a fiber returns that is resumed before its deadline -/
  inTime : μ → F → Bool
  /-- the fiber owns the lock, and has not acquired it several times -/
  ownsOnce : μ → F → Bool

namespace Monitor

variable {F : Type*} [DecidableEq F]

/-- Without re-entrance the owner waits for itself. -/
def tryUntil (reentrant : Bool) (m : Monitor F) (f : F) : Monitor F × Entry :=
  match m.owner with
  | none => ({ m with owner := some f, count := 1 }, .acquired)
  | some g =>
    if f = g ∧ reentrant = true then ({ m with count := m.count + 1 }, .acquired)
    else ({ m with queue := m.queue ++ [f] }, .blocked)

def waitUnlink (m : Monitor F) (f : F) : Monitor F := { m with queue := m.queue.erase f }

def timedOps (reentrant : Bool) : TimedLockOps F (Monitor F) where
  toLockOps := ops reentrant
  tryUntil := tryUntil reentrant
  waitUnlink := waitUnlink
  inTime m f := !reentrant || decide (m.owner = some f)
  ownsOnce m f := decide (m.owner = some f ∧ m.count = 1)

variable {reentrant : Bool} {m : Monitor F} {f g : F}

theorem tryUntil_free (h : m.owner = none) :
    m.tryUntil reentrant f = (⟨some f, 1, m.queue⟩, .acquired) := by
  simp only [tryUntil, h]

theorem tryUntil_own (h : m.owner = some f) (hr : reentrant = true) :
    m.tryUntil reentrant f = ({ m with count := m.count + 1 }, .acquired) := by
  simp only [tryUntil, h, hr, and_self, if_true]

theorem tryUntil_other (h : m.owner = some g) (hne : ¬ (f = g ∧ reentrant = true)) :
    m.tryUntil reentrant f = ({ m with queue := m.queue ++ [f] }, .blocked) := by
  rw [tryUntil, h]
  simp only [if_neg hne]

end Monitor

/-! ### The fibers that use it -/

namespace TimedLocking

inductive Phase
  /-- outside of the calls -/
  | outside
  /-- in `lock`, and in the queue -/
  | blocked
  /-- in `lock`, and handed the lock -/
  | woken
  /-- in the yield of `tryLock`, which has acquired the lock or not -/
  | trying (acquired : Bool)
  /-- in the timed call, and in the queue; a nested call is one of the owner -/
  | waiting (deadline : Nat) (nested : Bool)
  /-- ready, as the deadline has passed, and in the queue -/
  | expired (deadline : Nat) (nested : Bool)
  /-- in the timed call, and handed the lock -/
  | handed (deadline : Nat) (nested : Bool)
  deriving DecidableEq, Repr

/-- What a timed call has returned, and whether the caller then owns the lock, acquired once. -/
structure Report (F : Type*) where
  fiber : F
  nested : Bool
  result : Bool
  owns : Bool
  deriving DecidableEq, Repr

structure State (F μ : Type*) where
  lock : μ
  clock : Nat
  /-- the fiber that runs -/
  active : F
  phase : F → Phase
  /-- the calls that have returned with the lock, without those that `unlock` has undone -/
  held : F → Nat
  reports : List (Report F)

inductive Action (F : Type*)
  | lock
  | tryLock
  | tryUntil (now deadline : Nat)
  | unlock
  /-- the scheduler runs a fiber that is not in a timed call -/
  | switch (f : F)
  /-- the scheduler finds the deadline of a fiber passed -/
  | expire (f : F) (now : Nat)
  /-- the scheduler runs a fiber in a timed call, which reads the clock -/
  | resume (f : F) (now : Nat)
  deriving DecidableEq, Repr

variable {F μ ν : Type*} [DecidableEq F]

namespace State

def setPhase (s : State F μ) (f : F) (phase : Phase) : State F μ :=
  { s with phase := Function.update s.phase f phase }

def setHeld (s : State F μ) (f : F) (n : Nat) : State F μ :=
  { s with held := Function.update s.held f n }

def wake (s : State F μ) : Option F → State F μ
  | none => s
  | some f =>
    match s.phase f with
    | .waiting deadline nested | .expired deadline nested => s.setPhase f (.handed deadline nested)
    | _ => s.setPhase f .woken

/-- The lock after `lock` or `tryLock`, and where the fiber stands. -/
def enter (s : State F μ) : μ × Entry → State F μ
  | (m, .acquired) => { s.setHeld s.active (s.held s.active + 1) with lock := m }
  | (m, .blocked) => { s.setPhase s.active .blocked with lock := m }
  | (m, .failed) | (m, .threw) => { s with lock := m }

def enterTry (s : State F μ) : μ × Entry → State F μ
  | (m, .acquired) => { s.setPhase s.active (.trying true) with lock := m }
  | (m, .blocked) | (m, .failed) => { s.setPhase s.active (.trying false) with lock := m }
  | (m, .threw) => { s with lock := m }

def leave (s : State F μ) : μ × Exit F → State F μ
  | (m, .released woken) => ({ s.setHeld s.active (s.held s.active - 1) with lock := m }).wake woken
  | (m, .threw) => { s with lock := m }

/-- A timed call of the active fiber returns. -/
def answer (ops : TimedLockOps F μ) (s : State F μ) (nested result : Bool) : State F μ :=
  { (s.setPhase s.active .outside).setHeld s.active (s.held s.active + result.toNat) with
    reports := s.reports ++ [⟨s.active, nested, result, ops.ownsOnce s.lock s.active⟩] }

def enterUntil (ops : TimedLockOps F μ) (s : State F μ) (deadline : Nat) (nested : Bool) :
    μ × Entry → State F μ
  | (m, .acquired) => { s with lock := m }.answer ops nested true
  | (m, .blocked) => { s.setPhase s.active (.waiting deadline nested) with lock := m }
  | (m, .failed) | (m, .threw) => { s with lock := m }.answer ops nested false

/-- A fiber goes on behind `lock` or `tryLock`, or outside. -/
def switch (ops : TimedLockOps F μ) (s : State F μ) (f : F) : State F μ :=
  let s := { s with active := f }
  match s.phase f with
  | .woken => (s.setPhase f .outside).setHeld f (s.held f + 1)
  | .trying _ =>
    (s.setPhase f .outside).setHeld f (s.held f + (decide (ops.owner s.lock = some f)).toNat)
  | _ => s

/-- A fiber goes on behind `wait_until`, which returns whether the deadline is still to come. -/
def resume (ops : TimedLockOps F μ) (s : State F μ) (deadline : Nat) (nested : Bool) : State F μ :=
  if s.clock < deadline then s.answer ops nested (ops.inTime s.lock s.active)
  else { s with lock := ops.waitUnlink s.lock s.active }.answer ops nested false

end State

/-- The fibers that the scheduler may run without a look at the clock. -/
def Phase.runs : Phase → Bool
  | .outside | .woken | .trying _ => true
  | _ => false

def step (ops : TimedLockOps F μ) (s : State F μ) : Action F → Option (State F μ)
  | .lock => if s.phase s.active = .outside then some (s.enter (ops.lock s.lock s.active)) else none
  | .tryLock =>
    if s.phase s.active = .outside then some (s.enterTry (ops.tryLock s.lock s.active)) else none
  | .tryUntil now deadline =>
    if s.phase s.active = .outside ∧ s.clock ≤ now then
      let s := { s with clock := now }
      let nested := decide (ops.owner s.lock = some s.active)
      if deadline < now then some (s.answer ops nested false)
      else some (s.enterUntil ops deadline nested (ops.tryUntil s.lock s.active))
    else none
  | .unlock =>
    if s.phase s.active = .outside then some (s.leave (ops.unlock s.lock s.active)) else none
  | .switch f => if (s.phase f).runs then some (s.switch ops f) else none
  | .expire f now =>
    match s.phase f with
    | .waiting deadline nested =>
      if s.clock ≤ now ∧ deadline ≤ now then
        some { s.setPhase f (.expired deadline nested) with clock := now }
      else none
    | _ => none
  | .resume f now =>
    match s.phase f with
    | .expired deadline nested | .handed deadline nested =>
      if s.clock ≤ now then
        some ({ s with active := f, clock := now }.resume ops deadline nested)
      else none
    | _ => none

def initial (m : μ) (main : F) : State F μ := ⟨m, 0, main, fun _ => .outside, fun _ => 0, []⟩

/-- The runs of the fibers on one thread, the lock being `m` at the start. -/
def machine (ops : TimedLockOps F μ) (m : μ) (main : F) : Machine (State F μ) (Action F) :=
  ⟨initial m main, step ops⟩

/-- The acquisitions of a fiber whose call has not returned. -/
def Phase.pending : Phase → Nat
  | .woken | .trying true | .handed _ _ => 1
  | _ => 0

/-- Every timed call of a fiber that did not own the lock has returned whether it does afterwards, and
the owner has been told that it has acquired the lock, or is about to be told. -/
structure Truthful (ops : TimedLockOps F μ) (s : State F μ) : Prop where
  reports : ∀ r ∈ s.reports, r.nested = false → r.result = r.owns
  owner : ∀ f, ops.owner s.lock = some f → 0 < s.held f + (s.phase f).pending

/-- A fiber that has been handed the lock in a timed call is resumed before its deadline. -/
def InTime (s : State F μ) : Action F → Prop
  | .resume f now => ∀ deadline nested, s.phase f = .handed deadline nested → now < deadline
  | _ => True

/-! ### What holds as long as no deadline passes behind a hand-over -/

/-- In the queue of the lock. -/
def Phase.queued : Phase → Bool
  | .blocked | .waiting _ _ | .expired _ _ => true
  | _ => false

/-- The owner, which waits for itself. -/
def Phase.nested : Phase → Bool
  | .waiting _ nested | .expired _ nested => nested
  | _ => false

/-- The counter is the number of acquisitions of the owner, and no other fiber has any. -/
structure FiberOk (m : Monitor F) (f : F) (phase : Phase) (held : Nat) : Prop where
  owner : m.owner = some f → m.count = held + phase.pending ∧ phase ≠ .trying false
  other : m.owner ≠ some f → held = 0 ∧ phase.pending = 0
  queue : f ∈ m.queue ↔ phase.queued = true
  nested : phase.queued = true → (m.owner = some f ↔ phase.nested = true)
  handed : ∀ d nested, phase = .handed d nested → nested = false ∧ held = 0

def FibersOk (m : Monitor F) (phase : F → Phase) (held : F → Nat) : Prop :=
  ∀ f, FiberOk m f (phase f) (held f)

structure LockOk (m : Monitor F) : Prop where
  free : m.owner = none ↔ m.count = 0
  queue : m.owner = none → m.queue = []
  nodup : m.queue.Nodup

structure Inv (s : State F (Monitor F)) : Prop where
  fibers : FibersOk s.lock s.phase s.held
  lock : LockOk s.lock
  expired : ∀ f d nested, s.phase f = .expired d nested → d ≤ s.clock
  reports : ∀ r ∈ s.reports, r.nested = false → r.result = r.owns

section Invariant

variable {reentrant : Bool} {m m' : Monitor F} {phase : F → Phase} {held : F → Nat}
  {s t : State F (Monitor F)} {f g : F}

omit [DecidableEq F] in
theorem Inv.initial (main : F) : Inv (initial Monitor.free main) := by
  refine ⟨fun f => ⟨fun h => ?_, fun _ => ⟨rfl, rfl⟩, ?_, fun h => ?_, fun d nested h => ?_⟩,
    ⟨⟨fun _ => rfl, fun _ => rfl⟩, fun _ => rfl, List.nodup_nil⟩, fun f d nested h => ?_,
    fun r hr => absurd hr List.not_mem_nil⟩
  · cases h
  · exact ⟨fun hm => absurd hm List.not_mem_nil, fun h => absurd h Bool.false_ne_true⟩
  · exact absurd h Bool.false_ne_true
  · cases h
  · cases h

theorem FibersOk.put (h : FibersOk m phase held) (m' : Monitor F) (f : F) (p : Phase) (n : Nat)
    (hf : FiberOk m' f p n)
    (howner : ∀ g, g ≠ f → (m'.owner = some g ↔ m.owner = some g))
    (hqueue : ∀ g, g ≠ f → (g ∈ m'.queue ↔ g ∈ m.queue))
    (hcount : ∀ g, g ≠ f → m'.owner = some g → m'.count = m.count) :
    FibersOk m' (Function.update phase f p) (Function.update held f n) := by
  intro g
  by_cases hg : g = f
  · subst hg
    rw [Function.update_self, Function.update_self]
    exact hf
  · rw [Function.update_of_ne hg, Function.update_of_ne hg]
    obtain ⟨hown, hother, hmem, hnested, hhanded⟩ := h g
    refine ⟨fun ho => ?_, fun ho => hother (mt (howner g hg).mpr ho), ?_, ?_, hhanded⟩
    · rw [hcount g hg ho]
      exact hown ((howner g hg).mp ho)
    · rw [hqueue g hg]
      exact hmem
    · rw [howner g hg]
      exact hnested

theorem FibersOk.take (h : FibersOk m phase held) (hfree : m.owner = none) (hlock : LockOk m)
    {p : Phase} {n : Nat} (hp : p.queued = false ∧ p ≠ .trying false)
    (hhanded : ∀ d nested, p ≠ .handed d nested) (hn : n + p.pending = 1) :
    FibersOk ⟨some f, 1, m.queue⟩ (Function.update phase f p) (Function.update held f n) := by
  have hqueue := hlock.queue hfree
  refine h.put _ f p n ⟨fun _ => ⟨hn.symm, hp.2⟩, fun hne => absurd rfl hne, ?_, ?_, ?_⟩ (fun g hg => ?_)
    (fun _ _ => Iff.rfl) fun g hg ho => ?_
  · rw [hqueue, hp.1]
    exact ⟨fun hm => absurd hm List.not_mem_nil, fun hm => absurd hm Bool.false_ne_true⟩
  · rw [hp.1]
    exact fun hq => absurd hq Bool.false_ne_true
  · exact fun d nested he => absurd he (hhanded d nested)
  · rw [hfree]
    exact ⟨fun ho => absurd (Option.some.inj ho).symm hg, fun ho => absurd ho (by simp)⟩
  · exact absurd (Option.some.inj ho).symm hg

omit [DecidableEq F] in
theorem LockOk.take (h : LockOk m) : LockOk ⟨some f, 1, m.queue⟩ := by
  refine ⟨⟨fun hn => ?_, fun hz => ?_⟩, fun hn => ?_, h.nodup⟩
  · cases hn
  · cases hz
  · cases hn

theorem FibersOk.retake (h : FibersOk m phase held) (howner : m.owner = some f)
    (hout : phase f = .outside) {p : Phase} {n : Nat} (hp : p.queued = false ∧ p ≠ .trying false)
    (hhanded : ∀ d nested, p ≠ .handed d nested) (hn : n + p.pending = held f + 1) :
    FibersOk { m with count := m.count + 1 } (Function.update phase f p)
      (Function.update held f n) := by
  obtain ⟨hown, -, hqueue, -, -⟩ := h f
  have hcount := (hown howner).1
  rw [hout] at hcount hqueue
  have hpending : Phase.outside.pending = 0 := rfl
  refine h.put _ f p n ⟨fun _ => ⟨?_, hp.2⟩, fun hne => absurd howner hne, ?_, ?_, ?_⟩ (fun _ _ => Iff.rfl)
    (fun _ _ => Iff.rfl) fun g hg ho => ?_
  · show m.count + 1 = _
    omega
  · rw [hp.1]
    exact hqueue
  · rw [hp.1]
    exact fun hq => absurd hq Bool.false_ne_true
  · exact fun d nested he => absurd he (hhanded d nested)
  · rw [show m.owner = some g from ho] at howner
    exact absurd (Option.some.inj howner) hg

omit [DecidableEq F] in
theorem LockOk.retake (h : LockOk m) (howner : m.owner = some f) :
    LockOk { m with count := m.count + 1 } := by
  refine ⟨⟨fun hn => ?_, fun hz => absurd hz (Nat.succ_ne_zero _)⟩, h.queue, h.nodup⟩
  rw [show m.owner = none from hn] at howner
  cases howner

theorem FibersOk.block (h : FibersOk m phase held) (hout : phase f = .outside) {p : Phase}
    (hq : p.queued = true) (hp : p.pending = 0) (hnested : m.owner = some f ↔ p.nested = true) :
    FibersOk { m with queue := m.queue ++ [f] } (Function.update phase f p) held := by
  obtain ⟨hown, hother, -, -, -⟩ := h f
  rw [hout] at hown hother
  have hput := h.put { m with queue := m.queue ++ [f] } f p (held f)
    ⟨fun ho => ⟨?_, ?_⟩, fun ho => ⟨(hother ho).1, hp⟩, ?_, fun _ => hnested, ?_⟩ (fun _ _ => Iff.rfl)
    (fun g hg => ?_) fun _ _ _ => rfl
  · rw [Function.update_eq_self] at hput
    exact hput
  · rw [hp]
    exact (hown ho).1
  · rintro rfl
    cases hq
  · rw [hq]
    exact ⟨fun _ => rfl, fun _ => List.mem_append_right _ (List.mem_singleton.mpr rfl)⟩
  · rintro d nested rfl
    cases hq
  · rw [List.mem_append, List.mem_singleton]
    exact or_iff_left hg

omit [DecidableEq F] in
theorem LockOk.block (h : LockOk m) (howner : m.owner ≠ none) (hnot : f ∉ m.queue) :
    LockOk { m with queue := m.queue ++ [f] } := by
  refine ⟨h.free, fun hn => absurd hn howner, ?_⟩
  show (m.queue ++ [f]).Nodup
  rw [List.nodup_append]
  refine ⟨h.nodup, List.nodup_singleton f, fun d hd e he => ?_⟩
  rw [List.mem_singleton.mp he]
  rintro rfl
  exact hnot hd

theorem FibersOk.move (h : FibersOk m phase held) {p : Phase} {n : Nat} (hf : FiberOk m f p n) :
    FibersOk m (Function.update phase f p) (Function.update held f n) :=
  h.put m f p n hf (fun _ _ => Iff.rfl) (fun _ _ => Iff.rfl) fun _ _ _ => rfl

theorem Inv.expired_update (h : Inv s) {p : Phase} (hp : ∀ d nested, p ≠ .expired d nested)
    {now : Nat} (hnow : s.clock ≤ now) (g : F) (d : Nat) (nested : Bool)
    (hg : Function.update s.phase f p g = .expired d nested) : d ≤ now := by
  by_cases hgf : g = f
  · rw [hgf, Function.update_self] at hg
    exact absurd hg (hp d nested)
  · rw [Function.update_of_ne hgf] at hg
    exact Nat.le_trans (h.expired g d nested hg) hnow

omit [DecidableEq F] in
theorem Inv.tick (h : Inv s) {now : Nat} (hnow : s.clock ≤ now) : Inv { s with clock := now } :=
  ⟨h.fibers, h.lock, fun f d nested hf => Nat.le_trans (h.expired f d nested hf) hnow, h.reports⟩

omit [DecidableEq F] in
theorem Inv.not_queued (h : Inv s) (hout : s.phase f = .outside) : f ∉ s.lock.queue := by
  rw [(h.fibers f).queue, hout]
  exact Bool.false_ne_true

theorem Inv.take (h : Inv s) (hfree : s.lock.owner = none) {p : Phase} {n : Nat}
    (hp : p = .outside ∧ n = 1 ∨ p = .trying true ∧ n = 0) :
    Inv { s with
      lock := ⟨some s.active, 1, s.lock.queue⟩
      phase := Function.update s.phase s.active p
      held := Function.update s.held s.active n } := by
  rcases hp with ⟨rfl, rfl⟩ | ⟨rfl, rfl⟩
  · exact ⟨h.fibers.take hfree h.lock ⟨rfl, by simp⟩ (by simp) rfl, h.lock.take,
      h.expired_update (by simp) (Nat.le_refl _), h.reports⟩
  · exact ⟨h.fibers.take hfree h.lock ⟨rfl, by simp⟩ (by simp) rfl, h.lock.take,
      h.expired_update (by simp) (Nat.le_refl _), h.reports⟩

theorem Inv.retake (h : Inv s) (howner : s.lock.owner = some s.active)
    (hout : s.phase s.active = .outside) {p : Phase} {n : Nat}
    (hp : p = .outside ∧ n = s.held s.active + 1 ∨ p = .trying true ∧ n = s.held s.active) :
    Inv { s with
      lock := { s.lock with count := s.lock.count + 1 }
      phase := Function.update s.phase s.active p
      held := Function.update s.held s.active n } := by
  rcases hp with ⟨rfl, rfl⟩ | ⟨rfl, rfl⟩
  · exact ⟨h.fibers.retake howner hout ⟨rfl, by simp⟩ (by simp) rfl, h.lock.retake howner,
      h.expired_update (by simp) (Nat.le_refl _), h.reports⟩
  · exact ⟨h.fibers.retake howner hout ⟨rfl, by simp⟩ (by simp) rfl, h.lock.retake howner,
      h.expired_update (by simp) (Nat.le_refl _), h.reports⟩

theorem Inv.block (h : Inv s) (howner : s.lock.owner ≠ none) (hout : s.phase s.active = .outside)
    {p : Phase} (hp : p = .blocked ∧ s.lock.owner ≠ some s.active ∨
      ∃ d, p = .waiting d (decide (s.lock.owner = some s.active))) :
    Inv { s with
      lock := { s.lock with queue := s.lock.queue ++ [s.active] }
      phase := Function.update s.phase s.active p } := by
  have hlock := h.lock.block howner (h.not_queued hout)
  rcases hp with ⟨rfl, hne⟩ | ⟨d, rfl⟩
  · refine ⟨h.fibers.block hout rfl rfl ?_, hlock, h.expired_update (by simp) (Nat.le_refl _), h.reports⟩
    exact ⟨fun ho => absurd ho hne, fun hn => absurd hn Bool.false_ne_true⟩
  · exact ⟨h.fibers.block hout rfl rfl (by simp [Phase.nested]), hlock,
      h.expired_update (by simp) (Nat.le_refl _), h.reports⟩

theorem Inv.enter (h : Inv s) (hout : s.phase s.active = .outside) :
    Inv (s.enter (s.lock.lock reentrant s.active)) := by
  cases howner : s.lock.owner with
  | none =>
    rw [Monitor.lock_free howner]
    have hheld := ((h.fibers s.active).other (by rw [howner]; simp)).1
    have htake := h.take howner (p := .outside) (.inl ⟨rfl, rfl⟩)
    rw [← hout, Function.update_eq_self] at htake
    rw [State.enter, hheld]
    exact htake
  | some g =>
    by_cases hg : s.active = g
    · rw [Monitor.lock_own (hg ▸ howner), Monitor.reenter]
      by_cases hr : reentrant = true
      · rw [if_pos hr]
        have hretake := h.retake (hg ▸ howner) hout (p := .outside) (.inl ⟨rfl, rfl⟩)
        rw [← hout, Function.update_eq_self] at hretake
        exact hretake
      · rw [if_neg hr]
        exact h
    · rw [Monitor.lock_other howner hg]
      have hne : s.lock.owner ≠ some s.active := by
        rw [howner]
        exact fun he => hg (Option.some.inj he).symm
      exact h.block (by rw [howner]; simp) hout (.inl ⟨rfl, hne⟩)

theorem Inv.enterTry (h : Inv s) (hout : s.phase s.active = .outside) :
    Inv (s.enterTry (s.lock.tryLock reentrant s.active)) := by
  cases howner : s.lock.owner with
  | none =>
    rw [Monitor.tryLock_free howner]
    have hheld := ((h.fibers s.active).other (by rw [howner]; simp)).1
    have htake := h.take howner (p := .trying true) (.inr ⟨rfl, hheld⟩)
    rw [Function.update_eq_self] at htake
    exact htake
  | some g =>
    by_cases hg : s.active = g
    · rw [Monitor.tryLock_own (hg ▸ howner), Monitor.reenter]
      by_cases hr : reentrant = true
      · rw [if_pos hr]
        have hretake := h.retake (hg ▸ howner) hout (p := .trying true) (.inr ⟨rfl, rfl⟩)
        rw [Function.update_eq_self] at hretake
        exact hretake
      · rw [if_neg hr]
        exact h
    · rw [Monitor.tryLock_other howner hg]
      have hne : s.lock.owner ≠ some s.active := by
        rw [howner]
        exact fun he => hg (Option.some.inj he).symm
      obtain ⟨-, hother, hqueue, -, -⟩ := h.fibers s.active
      rw [hout] at hqueue
      have hmove := h.fibers.move (p := .trying false) (n := s.held s.active)
        ⟨fun ho => absurd ho hne, fun _ => ⟨(hother hne).1, rfl⟩, hqueue,
          fun hq => absurd hq Bool.false_ne_true, by simp⟩
      rw [Function.update_eq_self] at hmove
      exact ⟨hmove, h.lock, h.expired_update (by simp) (Nat.le_refl _), h.reports⟩

omit [DecidableEq F] in
theorem Inv.report (h : Inv s) {r : Report F} (hr : r.nested = false → r.result = r.owns) :
    Inv { s with reports := s.reports ++ [r] } := by
  refine ⟨h.fibers, h.lock, h.expired, fun x hx => ?_⟩
  rcases List.mem_append.mp hx with hx | hx
  · exact h.reports x hx
  · rw [List.mem_singleton.mp hx]
    exact hr

theorem Inv.answer_false (h : Inv s) (hout : s.phase s.active = .outside) {nested : Bool}
    (hnested : nested = false → s.lock.owner ≠ some s.active) :
    Inv (s.answer (Monitor.timedOps reentrant) nested false) := by
  have hreport := h.report (r := ⟨s.active, nested, false,
    (Monitor.timedOps reentrant).ownsOnce s.lock s.active⟩) fun hn => by
      simp [Monitor.timedOps, hnested hn]
  rw [State.answer, State.setPhase, ← hout, Function.update_eq_self, State.setHeld]
  simp only [Bool.toNat_false, Nat.add_zero, Function.update_eq_self]
  exact hreport

theorem Inv.enterUntil (h : Inv s) (hout : s.phase s.active = .outside) (deadline : Nat) :
    Inv (s.enterUntil (Monitor.timedOps reentrant) deadline (decide (s.lock.owner = some s.active))
      (s.lock.tryUntil reentrant s.active)) := by
  cases howner : s.lock.owner with
  | none =>
    rw [Monitor.tryUntil_free howner]
    have hheld := ((h.fibers s.active).other (by rw [howner]; simp)).1
    have htake := h.take howner (p := .outside) (n := s.held s.active + 1)
      (.inl ⟨rfl, by rw [hheld]⟩)
    exact htake.report (by simp [Monitor.timedOps])
  | some g =>
    by_cases hg : s.active = g ∧ reentrant = true
    · have hown : s.lock.owner = some s.active := hg.1 ▸ howner
      rw [Monitor.tryUntil_own hown hg.2, hg.1]
      have hretake := h.retake hown hout (p := .outside) (.inl ⟨rfl, rfl⟩)
      exact hretake.report (by simp)
    · rw [Monitor.tryUntil_other howner hg, ← howner]
      exact h.block (by rw [howner]; simp) hout (.inr ⟨deadline, rfl⟩)

/-! ### The lock is given up -/

theorem Inv.decrease (h : Inv s) (howner : s.lock.owner = some s.active)
    (hout : s.phase s.active = .outside) (hcount : 1 < s.lock.count) :
    Inv { s with
      lock := { s.lock with count := s.lock.count - 1 }
      held := Function.update s.held s.active (s.held s.active - 1) } := by
  obtain ⟨hown, -, hqueue, hnested, -⟩ := h.fibers s.active
  have hheld := (hown howner).1
  rw [hout] at hheld hqueue hnested
  have hpending : Phase.outside.pending = 0 := rfl
  have hput := h.fibers.put { s.lock with count := s.lock.count - 1 } s.active .outside
    (s.held s.active - 1) ⟨fun _ => ⟨?_, by simp⟩, fun ho => absurd howner ho, hqueue,
      hnested, by simp⟩ (fun _ _ => Iff.rfl) (fun _ _ => Iff.rfl) fun g hg ho => ?_
  · rw [← hout, Function.update_eq_self] at hput
    refine ⟨hput, ⟨⟨fun hn => ?_, fun hz => ?_⟩, h.lock.queue, h.lock.nodup⟩, h.expired, h.reports⟩
    · rw [show s.lock.owner = none from hn] at howner
      cases howner
    · have hz' : s.lock.count - 1 = 0 := hz
      omega
  · show s.lock.count - 1 = _
    omega
  · rw [show s.lock.owner = some g from ho] at howner
    exact absurd (Option.some.inj howner) hg

theorem FibersOk.release (h : FibersOk m phase held) (howner : m.owner = some f)
    (hout : phase f = .outside) (hcount : ¬ 1 < m.count) :
    FibersOk ⟨none, 0, m.queue⟩ phase (Function.update held f (held f - 1)) := by
  obtain ⟨hown, -, hqueue, -, -⟩ := h f
  have hheld := (hown howner).1
  rw [hout] at hheld hqueue
  have hpending : Phase.outside.pending = 0 := rfl
  have hput := h.put ⟨none, 0, m.queue⟩ f .outside (held f - 1)
    ⟨fun ho => absurd ho (by simp), fun _ => ⟨by omega, rfl⟩, hqueue,
      fun hq => absurd hq Bool.false_ne_true, by simp⟩ (fun g hg => ?_) (fun _ _ => Iff.rfl)
    fun g _ ho => absurd ho (by simp)
  · rw [← hout, Function.update_eq_self] at hput
    exact hput
  · rw [howner]
    exact ⟨fun ho => absurd ho (by simp), fun ho => absurd (Option.some.inj ho).symm hg⟩

theorem FibersOk.hand {w : F} {rest : List F} (h : FibersOk ⟨none, 0, w :: rest⟩ phase held)
    (hnot : w ∉ rest) {p : Phase} (hp : p.pending = 1 ∧ p.queued = false)
    (hhanded : ∀ d nested, p = .handed d nested → nested = false) :
    FibersOk ⟨some w, 1, rest⟩ (Function.update phase w p) held := by
  have hheld := ((h w).other (by simp)).1
  have hput := h.put ⟨some w, 1, rest⟩ w p (held w)
    ⟨fun _ => ⟨by rw [hheld, hp.1], ?_⟩, fun ho => absurd rfl ho, ?_, ?_,
      fun d nested he => ⟨hhanded d nested he, hheld⟩⟩ (fun g hg => ?_) (fun g hg => ?_) fun g hg ho => ?_
  · rw [Function.update_eq_self] at hput
    exact hput
  · rintro rfl
    exact absurd hp.1 (by decide)
  · rw [hp.2]
    exact ⟨fun hm => absurd hm hnot, fun hq => absurd hq Bool.false_ne_true⟩
  · rw [hp.2]
    exact fun hq => absurd hq Bool.false_ne_true
  · exact ⟨fun ho => absurd (Option.some.inj ho).symm hg, fun ho => absurd ho (by simp)⟩
  · rw [List.mem_cons]
    exact (or_iff_right hg).symm
  · exact absurd (Option.some.inj ho).symm hg

theorem Inv.leave (h : Inv s) (hout : s.phase s.active = .outside) :
    Inv (s.leave (s.lock.unlock s.active)) := by
  rw [Monitor.unlock]
  by_cases howner : s.lock.owner = some s.active
  · rw [if_pos howner]
    by_cases hcount : 1 < s.lock.count
    · rw [if_pos hcount]
      exact h.decrease howner hout hcount
    · rw [if_neg hcount]
      have hrelease := h.fibers.release howner hout hcount
      cases hqueue : s.lock.queue with
      | nil =>
        rw [hqueue] at hrelease
        exact ⟨hrelease, ⟨⟨fun _ => rfl, fun _ => rfl⟩, fun _ => rfl, List.nodup_nil⟩, h.expired,
          h.reports⟩
      | cons w rest =>
        rw [hqueue] at hrelease
        have hnodup := h.lock.nodup
        rw [hqueue, List.nodup_cons] at hnodup
        have hlock : LockOk ⟨some w, 1, rest⟩ := by
          refine ⟨⟨fun hn => ?_, fun hz => ?_⟩, fun hn => ?_, hnodup.2⟩
          · cases hn
          · cases hz
          · cases hn
        have hw := (hrelease w).queue.mp List.mem_cons_self
        have hnested := (hrelease w).nested hw
        simp only [State.leave, State.wake, State.setHeld, State.setPhase]
        rcases hp : s.phase w with _ | _ | _ | _ | ⟨d, nested⟩ | ⟨d, nested⟩ | _ <;>
          rw [hp] at hw hnested <;> simp only [Phase.queued, Bool.false_eq_true] at hw
        · exact ⟨hrelease.hand hnodup.1 ⟨rfl, rfl⟩ (by simp), hlock,
            h.expired_update (by simp) (Nat.le_refl _), h.reports⟩
        · have hfalse : nested = false := by simpa [Phase.nested] using hnested
          exact ⟨hrelease.hand hnodup.1 ⟨rfl, rfl⟩ (by simp [hfalse]), hlock,
            h.expired_update (by simp) (Nat.le_refl _), h.reports⟩
        · have hfalse : nested = false := by simpa [Phase.nested] using hnested
          exact ⟨hrelease.hand hnodup.1 ⟨rfl, rfl⟩ (by simp [hfalse]), hlock,
            h.expired_update (by simp) (Nat.le_refl _), h.reports⟩
  · rw [if_neg howner]
    exact h

/-! ### Fibers go on -/

omit [DecidableEq F] in
theorem Inv.activate (h : Inv s) (f : F) : Inv { s with active := f } :=
  ⟨h.fibers, h.lock, h.expired, h.reports⟩

theorem Inv.acquire (h : Inv s) (hp : (s.phase f).pending = 1) (hq : (s.phase f).queued = false) :
    Inv { s with
      phase := Function.update s.phase f .outside
      held := Function.update s.held f (s.held f + 1) } := by
  obtain ⟨hown, hother, hqueue, -, -⟩ := h.fibers f
  rw [hp] at hown hother
  have howner : s.lock.owner = some f := by
    by_contra hne
    exact absurd (hother hne).2 Nat.one_ne_zero
  rw [hq] at hqueue
  refine ⟨h.fibers.move ⟨fun _ => ⟨(hown howner).1, by simp⟩, fun ho => absurd howner ho, hqueue,
    fun hq => absurd hq Bool.false_ne_true, by simp⟩, h.lock,
    h.expired_update (by simp) (Nat.le_refl _), h.reports⟩

theorem Inv.switch (h : Inv s) (f : F) : Inv (s.switch (Monitor.timedOps reentrant) f) := by
  have hact := h.activate f
  simp only [State.switch]
  rcases hp : s.phase f with _ | _ | _ | acquired | _ | _ | _ <;> dsimp only
  · exact hact
  · exact hact
  · exact hact.acquire (f := f) (by rw [hp]; rfl) (by rw [hp]; rfl)
  · obtain ⟨hown, hother, hqueue, -, -⟩ := h.fibers f
    rw [hp] at hown hother hqueue
    have howner : (Monitor.timedOps reentrant).owner s.lock = s.lock.owner := rfl
    by_cases ho : s.lock.owner = some f
    · rw [howner, decide_eq_true ho]
      obtain rfl : acquired = true := by
        cases acquired with
        | true => rfl
        | false => exact absurd rfl (hown ho).2
      exact hact.acquire (f := f) (by rw [hp]; rfl) (by rw [hp]; rfl)
    · rw [howner, decide_eq_false ho]
      have hmove := h.fibers.move (f := f) (p := .outside) (n := s.held f)
        ⟨fun h => absurd h ho, fun _ => ⟨(hother ho).1, rfl⟩, hqueue,
          fun hq => absurd hq Bool.false_ne_true, by simp⟩
      exact ⟨hmove, h.lock, h.expired_update (by simp) (Nat.le_refl _), h.reports⟩
  · exact hact
  · exact hact
  · exact hact

theorem Inv.expire (h : Inv s) {d now : Nat} {nested : Bool} (hp : s.phase f = .waiting d nested)
    (hnow : s.clock ≤ now) (hd : d ≤ now) :
    Inv { s.setPhase f (.expired d nested) with clock := now } := by
  have hf := h.fibers f
  rw [hp] at hf
  have hmove := h.fibers.move (f := f) (p := .expired d nested) (n := s.held f)
    ⟨fun ho => ⟨(hf.owner ho).1, by simp⟩, hf.other, hf.queue, hf.nested, by simp⟩
  rw [Function.update_eq_self] at hmove
  refine ⟨hmove, h.lock, fun g d' n' hg => ?_, h.reports⟩
  replace hg : Function.update s.phase f (.expired d nested) g = .expired d' n' := hg
  by_cases hgf : g = f
  · rw [hgf, Function.update_self] at hg
    cases hg
    exact hd
  · rw [Function.update_of_ne hgf] at hg
    exact Nat.le_trans (h.expired g d' n' hg) hnow

theorem Inv.giveUp (h : Inv s) {d : Nat} {nested : Bool} (hp : s.phase f = .expired d nested) :
    Inv { s with
      lock := s.lock.waitUnlink f
      phase := Function.update s.phase f .outside } := by
  obtain ⟨hown, hother, -, -, -⟩ := h.fibers f
  rw [hp] at hown hother
  have hput := h.fibers.put (s.lock.waitUnlink f) f .outside (s.held f)
    ⟨fun ho => ⟨(hown ho).1, by simp⟩, fun ho => ⟨(hother ho).1, rfl⟩, ?_,
      fun hq => absurd hq Bool.false_ne_true, by simp⟩ (fun _ _ => Iff.rfl) (fun g hg => ?_)
    fun _ _ _ => rfl
  · rw [Function.update_eq_self] at hput
    refine ⟨hput, ⟨h.lock.free, fun hn => ?_, h.lock.nodup.erase f⟩,
      h.expired_update (by simp) (Nat.le_refl _), h.reports⟩
    show s.lock.queue.erase f = []
    rw [h.lock.queue hn]
    rfl
  · exact ⟨fun hm => absurd hm h.lock.nodup.not_mem_erase, fun hq => absurd hq Bool.false_ne_true⟩
  · exact List.mem_erase_of_ne hg

theorem Inv.resume_expired (h : Inv s) {d : Nat} {nested : Bool}
    (hp : s.phase s.active = .expired d nested) :
    Inv (s.resume (Monitor.timedOps reentrant) d nested) := by
  have hle := h.expired s.active d nested hp
  have hnested := (h.fibers s.active).nested
  rw [hp] at hnested
  rw [State.resume, if_neg (Nat.not_lt.mpr hle)]
  have hgiven : nested = false → s.lock.owner ≠ some s.active := by
    intro hn ho
    have htrue : nested = true := (hnested rfl).mp ho
    rw [hn] at htrue
    cases htrue
  have hanswer : Inv (State.answer (Monitor.timedOps reentrant) _ nested false) :=
    (h.giveUp hp).answer_false (Function.update_self ..) hgiven
  simp only [State.answer, State.setPhase, State.setHeld, Function.update_idem] at hanswer ⊢
  exact hanswer

theorem Inv.handed (h : Inv s) {d : Nat} {nested : Bool} (hp : s.phase f = .handed d nested) :
    s.lock.owner = some f ∧ s.lock.count = 1 ∧ nested = false := by
  obtain ⟨hown, hother, -, -, hhanded⟩ := h.fibers f
  obtain ⟨hfalse, hheld⟩ := hhanded d nested hp
  rw [hp, hheld] at hown hother
  have howner : s.lock.owner = some f := by
    by_contra hne
    exact absurd (hother hne).2 Nat.one_ne_zero
  exact ⟨howner, (hown howner).1, hfalse⟩

theorem Inv.resume_handed (h : Inv s) {d : Nat} {nested : Bool}
    (hp : s.phase s.active = .handed d nested) (hlt : s.clock < d) :
    Inv (s.resume (Monitor.timedOps reentrant) d nested) := by
  obtain ⟨howner, hcount, -⟩ := h.handed hp
  have hin : (Monitor.timedOps reentrant).inTime s.lock s.active = true := by
    simp [Monitor.timedOps, howner]
  have hacquire := h.acquire (f := s.active) (by rw [hp]; rfl) (by rw [hp]; rfl)
  rw [State.resume, if_pos hlt, hin]
  exact hacquire.report (by simp [Monitor.timedOps, howner, hcount])

theorem Inv.step {a : Action F} (h : Inv s) (hok : InTime s a)
    (hs : step (Monitor.timedOps reentrant) s a = some t) : Inv t := by
  cases a with
  | lock =>
    rw [TimedLocking.step, Option.ite_none_right_eq_some, Option.some.injEq] at hs
    exact hs.2 ▸ h.enter hs.1
  | tryLock =>
    rw [TimedLocking.step, Option.ite_none_right_eq_some, Option.some.injEq] at hs
    exact hs.2 ▸ h.enterTry hs.1
  | tryUntil now deadline =>
    rw [TimedLocking.step, Option.ite_none_right_eq_some] at hs
    obtain ⟨⟨hout, hnow⟩, hs⟩ := hs
    have htick := h.tick hnow
    by_cases hlt : deadline < now
    · rw [if_pos hlt, Option.some.injEq] at hs
      exact hs ▸ htick.answer_false hout fun hn => of_decide_eq_false hn
    · rw [if_neg hlt, Option.some.injEq] at hs
      exact hs ▸ htick.enterUntil hout deadline
  | unlock =>
    rw [TimedLocking.step, Option.ite_none_right_eq_some, Option.some.injEq] at hs
    exact hs.2 ▸ h.leave hs.1
  | switch f =>
    rw [TimedLocking.step, Option.ite_none_right_eq_some, Option.some.injEq] at hs
    exact hs.2 ▸ h.switch f
  | expire f now =>
    simp only [TimedLocking.step] at hs
    rcases hp : s.phase f with _ | _ | _ | _ | ⟨d, nested⟩ | _ | _ <;>
      simp only [hp, reduceCtorEq, Option.ite_none_right_eq_some, Option.some.injEq] at hs
    obtain ⟨⟨hnow, hd⟩, rfl⟩ := hs
    exact h.expire hp hnow hd
  | resume f now =>
    simp only [TimedLocking.step] at hs
    rcases hp : s.phase f with _ | _ | _ | _ | _ | ⟨d, nested⟩ | ⟨d, nested⟩ <;>
      simp only [hp, reduceCtorEq, Option.ite_none_right_eq_some, Option.some.injEq] at hs
    · obtain ⟨hnow, rfl⟩ := hs
      exact ((h.tick hnow).activate f).resume_expired hp
    · obtain ⟨hnow, rfl⟩ := hs
      exact ((h.tick hnow).activate f).resume_handed hp (hok d nested hp)

/-- A fiber that is resumed too late reports that it does not own the lock. -/
theorem Inv.late {a : Action F} (h : Inv s) (hok : ¬ InTime s a)
    (hs : TimedLocking.step (Monitor.timedOps reentrant) s a = some t) :
    ¬ Truthful (Monitor.timedOps reentrant) t := by
  cases a with
  | resume f now =>
    simp only [InTime, not_forall, Nat.not_lt] at hok
    obtain ⟨d, nested, hp, hle⟩ := hok
    simp only [TimedLocking.step, hp, Option.ite_none_right_eq_some, Option.some.injEq] at hs
    obtain ⟨hnow, rfl⟩ := hs
    obtain ⟨howner, hcount, rfl⟩ := h.handed hp
    intro htruth
    have hnot : f ∉ s.lock.queue := by
      rw [(h.fibers f).queue, hp]
      exact Bool.false_ne_true
    rw [State.resume, if_neg (Nat.not_lt.mpr hle)] at htruth
    have hreport := htruth.reports ⟨f, false, false, _⟩
      (List.mem_append_right _ (List.mem_singleton.mpr rfl)) rfl
    simp [Monitor.timedOps, Monitor.waitUnlink, howner, hcount] at hreport
  | _ => exact absurd trivial hok

theorem Inv.truthful (h : Inv s) : Truthful (Monitor.timedOps reentrant) s := by
  refine ⟨h.reports, fun f howner => ?_⟩
  replace howner : s.lock.owner = some f := howner
  have hcount := ((h.fibers f).owner howner).1
  have hne : s.lock.count ≠ 0 := by
    intro hzero
    rw [h.lock.free.mpr hzero] at howner
    cases howner
  omega

end Invariant

/-! ### Implementations -/

/-- The operations are those of another lock, under a view. -/
structure Agree (ops : TimedLockOps F μ) (ops' : TimedLockOps F ν) (view : μ → ν) : Prop extends
    Locking.Agree ops.toLockOps ops'.toLockOps view where
  tryUntil : ∀ m f, ops'.tryUntil (view m) f = (view (ops.tryUntil m f).1, (ops.tryUntil m f).2)
  waitUnlink : ∀ m f, ops'.waitUnlink (view m) f = view (ops.waitUnlink m f)
  inTime : ∀ m f, ops'.inTime (view m) f = ops.inTime m f
  ownsOnce : ∀ m f, ops'.ownsOnce (view m) f = ops.ownsOnce m f

def State.map (view : μ → ν) (s : State F μ) : State F ν where
  lock := view s.lock
  clock := s.clock
  active := s.active
  phase := s.phase
  held := s.held
  reports := s.reports

section Agree

variable {ops : TimedLockOps F μ} {ops' : TimedLockOps F ν} {view : μ → ν}

theorem Agree.answer (h : Agree ops ops' view) (s : State F μ) (nested result : Bool) :
    (s.map view).answer ops' nested result = (s.answer ops nested result).map view := by
  simp only [State.answer, State.setPhase, State.setHeld, State.map, h.ownsOnce]

theorem Agree.resume (h : Agree ops ops' view) (s : State F μ) (d : Nat) (nested : Bool) :
    (s.map view).resume ops' d nested = (s.resume ops d nested).map view := by
  simp only [State.resume]
  by_cases hlt : s.clock < d
  · rw [if_pos hlt, if_pos (show (s.map view).clock < d from hlt), ← h.answer]
    congr 1
    exact h.inTime _ _
  · rw [if_neg hlt, if_neg (show ¬ (s.map view).clock < d from hlt), ← h.answer]
    congr 1
    simp only [State.map, h.waitUnlink]

theorem Agree.step (h : Agree ops ops' view) {s t : State F μ} {a : Action F}
    (hs : step ops s a = some t) :
    TimedLocking.step ops' (s.map view) a = some (t.map view) := by
  cases a with
  | lock =>
    rw [TimedLocking.step, Option.ite_none_right_eq_some, Option.some.injEq] at hs ⊢
    refine ⟨hs.1, ?_⟩
    rw [← hs.2, State.map, h.lock]
    obtain ⟨m, entry⟩ := ops.lock s.lock s.active
    cases entry <;> rfl
  | tryLock =>
    rw [TimedLocking.step, Option.ite_none_right_eq_some, Option.some.injEq] at hs ⊢
    refine ⟨hs.1, ?_⟩
    rw [← hs.2, State.map, h.tryLock]
    obtain ⟨m, entry⟩ := ops.tryLock s.lock s.active
    cases entry <;> rfl
  | tryUntil now deadline =>
    rw [TimedLocking.step, Option.ite_none_right_eq_some] at hs ⊢
    obtain ⟨hguard, hs⟩ := hs
    refine ⟨hguard, ?_⟩
    dsimp only at hs ⊢
    have hnested : ops'.owner (s.map view).lock = ops.owner s.lock := h.owner _
    rw [hnested]
    by_cases hlt : deadline < now
    · rw [if_pos hlt, Option.some.injEq] at hs ⊢
      rw [← hs, ← h.answer]
      rfl
    · rw [if_neg hlt, Option.some.injEq] at hs ⊢
      rw [← hs]
      have htry : ops'.tryUntil (s.map view).lock (s.map view).active =
          (view (ops.tryUntil s.lock s.active).1, (ops.tryUntil s.lock s.active).2) := h.tryUntil _ _
      rw [htry]
      obtain ⟨m, entry⟩ := ops.tryUntil s.lock s.active
      cases entry with
      | acquired => exact h.answer { s with clock := now, lock := m } _ true
      | blocked => rfl
      | failed => exact h.answer { s with clock := now, lock := m } _ false
      | threw => exact h.answer { s with clock := now, lock := m } _ false
  | unlock =>
    rw [TimedLocking.step, Option.ite_none_right_eq_some, Option.some.injEq] at hs ⊢
    refine ⟨hs.1, ?_⟩
    rw [← hs.2, State.map, h.unlock]
    obtain ⟨m, exit⟩ := ops.unlock s.lock s.active
    cases exit with
    | released woken =>
      cases woken with
      | none => rfl
      | some w =>
        simp only [State.leave, State.wake, State.setHeld, State.setPhase]
        rcases s.phase w with _ | _ | _ | _ | _ | _ | _ <;> rfl
    | threw => rfl
  | switch f =>
    rw [TimedLocking.step, Option.ite_none_right_eq_some, Option.some.injEq] at hs ⊢
    refine ⟨hs.1, ?_⟩
    rw [← hs.2]
    simp only [State.switch, State.map, h.owner]
    rcases s.phase f with _ | _ | _ | _ | _ | _ | _ <;> rfl
  | expire f now =>
    simp only [TimedLocking.step] at hs ⊢
    rcases hp : s.phase f with _ | _ | _ | _ | ⟨d, nested⟩ | _ | _ <;>
      simp only [hp, reduceCtorEq, Option.ite_none_right_eq_some, Option.some.injEq] at hs
    rw [show (s.map view).phase f = .waiting d nested from hp, ← hs.2]
    exact if_pos hs.1
  | resume f now =>
    simp only [TimedLocking.step] at hs ⊢
    rcases hp : s.phase f with _ | _ | _ | _ | _ | ⟨d, nested⟩ | ⟨d, nested⟩ <;>
      simp only [hp, reduceCtorEq, Option.ite_none_right_eq_some, Option.some.injEq] at hs
    · rw [show (s.map view).phase f = .expired d nested from hp]
      rw [← hs.2, ← h.resume]
      exact if_pos hs.1
    · rw [show (s.map view).phase f = .handed d nested from hp]
      rw [← hs.2, ← h.resume]
      exact if_pos hs.1

omit [DecidableEq F] in
theorem Agree.truthful (h : Agree ops ops' view) {s : State F μ} :
    Truthful ops' (s.map view) ↔ Truthful ops s := by
  constructor
  · exact fun ht => ⟨ht.reports, fun f hf => ht.owner f ((h.owner _).trans hf)⟩
  · exact fun ht => ⟨ht.reports, fun f hf => ht.owner f ((h.owner _).symm.trans hf)⟩

/-- In a run of a lock that agrees with the monitor every report is truthful, if and only if every fiber
that is handed the lock in a timed call is resumed before its deadline. -/
theorem Agree.truthful_iff {view : μ → Monitor F} {reentrant : Bool}
    (h : Agree ops (Monitor.timedOps reentrant) view) {m : μ} (hm : view m = .free) {main : F}
    {t : State F μ} {as : List (Action F)} (hrun : (machine ops m main).exec (initial m main) as = some t) :
    (machine ops m main).Throughout (Truthful ops) (initial m main) as ↔
      (machine ops m main).StepsMeet InTime (initial m main) as := by
  have hstart : Inv ((initial m main).map view) := by
    have hinitial : (initial m main).map view = initial Monitor.free main := by
      rw [← hm]
      rfl
    rw [hinitial]
    exact .initial main
  refine Machine.throughout_iff (fun s (hs : Inv (s.map view)) => h.truthful.mp hs.truthful) ?_ ?_
    hstart hrun
  · exact fun s a t hs hok hstep => hs.step hok (h.step hstep)
  · exact fun s a t hs hok hstep ht => hs.late hok (h.step hstep) (h.truthful.mpr ht)

end Agree

end TimedLocking

end Transition
