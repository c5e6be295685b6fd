import Dumbo.Lib.Machine
import Mathlib.Data.List.Count
import Mathlib.Data.List.Nodup
import Mathlib.Logic.Function.Iterate

/-!
# Waiting in queues

The fibers of one thread that use a primitive with wait queues and deadlines. A call runs until it
returns or suspends its fiber; another fiber makes it ready again, or its deadline does, in which case
it stays linked in its queue until it is resumed.
-/

namespace Transition

/-- The calls in which a fiber may wait: the queue it is linked in, if any, and its deadline. -/
class Wait (ω : Type*) (κ : outParam Type*) where
  queue : ω → Option κ
  deadline : ω → Option Nat

inductive Mode (ω : Type*)
  /-- not suspended in a call -/
  | outside
  | suspended (op : ω)
  /-- ready, as its deadline has passed, and linked -/
  | expired (op : ω)
  /-- made ready by another fiber -/
  | notified (op : ω)
  deriving DecidableEq, Repr

structure Fibers (F κ ω : Type*) where
  clock : Nat
  /-- the fiber that runs a call, with the call -/
  running : Option (F × ω)
  mode : F → Mode ω
  queue : κ → List F
  ready : List F

variable {F κ ω : Type*}

namespace Mode

def notify : Mode ω → Mode ω
  | suspended op | expired op | notified op => notified op
  | outside => outside

def isReady : Mode ω → Bool
  | expired _ | notified _ => true
  | _ => false

/-- The call in which a fiber is suspended. -/
def call : Mode ω → Option ω
  | outside => none
  | suspended op | expired op | notified op => some op

variable [Wait ω κ]

def linked (k : κ) : Mode ω → Prop
  | suspended op | expired op => Wait.queue op = some k
  | _ => False

/-- Woken from a queue. -/
def woken [DecidableEq κ] (k : κ) : Mode ω → Bool
  | notified op => Wait.queue op = some k
  | _ => false

theorem linked_iff {m : Mode ω} {k : κ} :
    m.linked k ↔ ∃ op, (m = suspended op ∨ m = expired op) ∧ Wait.queue op = some k := by
  cases m with
  | outside | notified op => simp [linked]
  | suspended op | expired op => simp [linked]

omit [Wait ω κ] in
theorem notify_of_waits {m : Mode ω} {op : ω} (hm : m = suspended op ∨ m = expired op) :
    m.notify = notified op := by
  rcases hm with rfl | rfl <;> rfl

theorem not_woken_of_waits [DecidableEq κ] {m : Mode ω} {op : ω}
    (hm : m = suspended op ∨ m = expired op) (k : κ) : m.woken k = false := by
  rcases hm with rfl | rfl <;> rfl

end Mode

namespace Fibers

variable [Wait ω κ]

def initial (clock : Nat) : Fibers F κ ω := ⟨clock, none, fun _ => .outside, fun _ => [], []⟩

section Steps

variable [DecidableEq F] [DecidableEq κ]

def link (queue : κ → List F) : Option κ → F → κ → List F
  | some k, f => Function.update queue k (queue k ++ [f])
  | none, _ => queue

def setMode (s : Fibers F κ ω) (f : F) (mode : Mode ω) : Fibers F κ ω :=
  { s with mode := Function.update s.mode f mode }

/-- The fiber enters a call, or goes round its loop again. -/
def run (s : Fibers F κ ω) (f : F) (op : ω) : Fibers F κ ω := { s with running := some (f, op) }

/-- The call returns. -/
def finish (s : Fibers F κ ω) : Fibers F κ ω := { s with running := none }

/-- `wait_link`, where the call waits in a queue, and `suspend` or `wait_until`. -/
def park (s : Fibers F κ ω) (f : F) (op : ω) : Fibers F κ ω :=
  { s.setMode f (.suspended op) with
    running := none
    queue := link s.queue (Wait.queue op) f }

def waitLink (s : Fibers F κ ω) (f : F) (k : κ) : Fibers F κ ω :=
  { s with queue := link s.queue (some k) f }

/-- `suspend` or `wait_until`, where something is done between it and `wait_link`. -/
def suspend (s : Fibers F κ ω) (f : F) (op : ω) : Fibers F κ ω :=
  { s.setMode f (.suspended op) with running := none }

def setReady (s : Fibers F κ ω) (f : F) : Fibers F κ ω :=
  { s.setMode f (s.mode f).notify with ready := s.ready.erase f ++ [f] }

/-- Unlink the first fiber of a queue, if there is one, and make it ready. -/
def wakeOne (s : Fibers F κ ω) (k : κ) : Fibers F κ ω :=
  match s.queue k with
  | [] => s
  | f :: rest => { s with queue := Function.update s.queue k rest }.setReady f

/-- Unlink the first fiber until the queue is empty. -/
def wakeAll (s : Fibers F κ ω) (k : κ) : Fibers F κ ω :=
  Nat.iterate (fun s => s.wakeOne k) (s.queue k).length s

/-- The dispatcher finds the deadline of a sleeping fiber passed. -/
def expire (s : Fibers F κ ω) (f : F) (op : ω) : Fibers F κ ω :=
  { s.setMode f (.expired op) with ready := s.ready ++ [f] }

/-- The scheduler resumes a ready fiber. -/
def pick (s : Fibers F κ ω) (f : F) : Fibers F κ ω :=
  { s.setMode f .outside with ready := s.ready.erase f }

def waitUnlink (s : Fibers F κ ω) (f : F) : Fibers F κ ω :=
  { s with queue := fun k => (s.queue k).erase f }

def tick (s : Fibers F κ ω) (n : Nat) : Fibers F κ ω := { s with clock := s.clock + n }

end Steps

/-- `now < deadline` -/
def inTime (s : Fibers F κ ω) (op : ω) : Bool :=
  match Wait.deadline op with
  | none => true
  | some d => s.clock < d

def overdue (s : Fibers F κ ω) (op : ω) : Bool :=
  match Wait.deadline op with
  | none => false
  | some d => d ≤ s.clock

/-- No fiber runs or is ready to run a call, and none has a deadline to come. -/
structure Quiescent (s : Fibers F κ ω) : Prop where
  running : s.running = none
  ready : s.ready = []
  deadlines : ∀ f op, s.mode f = .suspended op → Wait.deadline op = none

/-- The ready fibers that have been woken from a queue. -/
def wakes [DecidableEq κ] (s : Fibers F κ ω) (k : κ) : Nat := s.ready.countP fun f => (s.mode f).woken k

/-- The fiber that runs a call with this queue. -/
def runs [DecidableEq κ] (s : Fibers F κ ω) (k : κ) : Nat :=
  match s.running with
  | some (_, op) => if Wait.queue op = some k then 1 else 0
  | none => 0

theorem not_inTime_of_overdue {s : Fibers F κ ω} {op : ω} (h : s.overdue op = true) :
    ¬ s.inTime op = true := by
  simp only [overdue, inTime] at h ⊢
  split at h
  · exact absurd h Bool.false_ne_true
  · rw [decide_eq_true_eq] at h ⊢
    exact Nat.not_lt.mpr h

/-! ### What holds between calls -/

structure WellFormed (s : Fibers F κ ω) : Prop where
  /-- the queues hold the fibers that wait in them -/
  linked : ∀ k f, f ∈ s.queue k ↔ (s.mode f).linked k
  nodup : ∀ k, (s.queue k).Nodup
  expired : ∀ f op, s.mode f = .expired op → s.overdue op = true
  ready : ∀ f, f ∈ s.ready ↔ (s.mode f).isReady = true
  ready_nodup : s.ready.Nodup
  running : ∀ f op, s.running = some (f, op) → s.mode f = .outside

variable {s : Fibers F κ ω} {f : F} {op : ω} {k : κ}

theorem WellFormed.initial (clock : Nat) : (initial clock : Fibers F κ ω).WellFormed := by
  refine ⟨fun k f => ?_, fun k => List.nodup_nil, fun f op h => ?_, fun f => ?_, List.nodup_nil,
    fun _ _ _ => rfl⟩
  · exact ⟨fun h => absurd h List.not_mem_nil, fun h => h.elim⟩
  · exact absurd h (by simp [Fibers.initial])
  · simp [Fibers.initial, Mode.isReady]

theorem WellFormed.not_linked (h : s.WellFormed) (hf : ∀ k, ¬ (s.mode f).linked k) (k : κ) :
    f ∉ s.queue k :=
  fun hm => hf k ((h.linked k f).mp hm)

theorem WellFormed.not_ready (h : s.WellFormed) (hf : (s.mode f).isReady = false) : f ∉ s.ready := by
  rw [h.ready, hf]
  exact Bool.false_ne_true

theorem WellFormed.run (h : s.WellFormed) (hf : s.mode f = .outside) (op : ω) :
    (s.run f op).WellFormed := by
  refine ⟨h.linked, h.nodup, h.expired, h.ready, h.ready_nodup, fun g op' hg => ?_⟩
  simp only [Fibers.run, Option.some.injEq, Prod.mk.injEq] at hg
  exact hg.1 ▸ hf

theorem WellFormed.finish (h : s.WellFormed) : s.finish.WellFormed :=
  ⟨h.linked, h.nodup, h.expired, h.ready, h.ready_nodup, fun _ _ hg => absurd hg (by simp [Fibers.finish])⟩

theorem WellFormed.tick (h : s.WellFormed) (n : Nat) : (s.tick n).WellFormed := by
  refine ⟨h.linked, h.nodup, fun f op hf => ?_, h.ready, h.ready_nodup, h.running⟩
  have hover := h.expired f op hf
  simp only [overdue, Fibers.tick] at hover ⊢
  split at hover
  · exact absurd hover Bool.false_ne_true
  · exact decide_eq_true (Nat.le_trans (of_decide_eq_true hover) (Nat.le_add_right _ _))

variable [DecidableEq F]

theorem WellFormed.change (h : s.WellFormed) {mode : Mode ω} {queue : κ → List F} {ready : List F}
    {running : Option (F × ω)} (hlinked : ∀ k, f ∈ queue k ↔ mode.linked k)
    (hqueue : ∀ k g, g ≠ f → (g ∈ queue k ↔ g ∈ s.queue k)) (hnodup : ∀ k, (queue k).Nodup)
    (hexpired : ∀ op, mode = .expired op → s.overdue op = true) (hready : f ∈ ready ↔ mode.isReady = true)
    (hothers : ∀ g, g ≠ f → (g ∈ ready ↔ g ∈ s.ready)) (hready_nodup : ready.Nodup)
    (hrunning : ∀ g op, running = some (g, op) → Function.update s.mode f mode g = .outside) :
    WellFormed { s with mode := Function.update s.mode f mode, queue := queue, ready := ready,
                        running := running } := by
  refine ⟨fun k g => ?_, hnodup, fun g op hg => ?_, fun g => ?_, hready_nodup, hrunning⟩
  · by_cases hg : g = f
    · subst hg
      simp only [Function.update_self]
      exact hlinked k
    · simp only [Function.update_of_ne hg]
      exact (hqueue k g hg).trans (h.linked k g)
  · by_cases hgf : g = f
    · subst hgf
      simp only [Function.update_self] at hg
      exact hexpired op hg
    · simp only [Function.update_of_ne hgf] at hg
      exact h.expired g op hg
  · by_cases hg : g = f
    · subst hg
      simp only [Function.update_self]
      exact hready
    · simp only [Function.update_of_ne hg]
      exact (hothers g hg).trans (h.ready g)

variable [DecidableEq κ]

omit [Wait ω κ] [DecidableEq F] in
theorem mem_link {queue : κ → List F} {o : Option κ} {g : F} :
    g ∈ link queue o f k ↔ g ∈ queue k ∨ g = f ∧ o = some k := by
  cases o with
  | none => simp [link]
  | some k' =>
    by_cases hk : k = k'
    · subst hk
      simp [link]
    · simp [link, Function.update_of_ne hk, Ne.symm hk]

omit [Wait ω κ] [DecidableEq F] in
theorem nodup_link {queue : κ → List F} {o : Option κ} (h : (queue k).Nodup) (hf : f ∉ queue k) :
    (link queue o f k).Nodup := by
  cases o with
  | none => exact h
  | some k' =>
    by_cases hk : k = k'
    · subst hk
      rw [link, Function.update_self]
      exact h.append (List.nodup_singleton f) (by simpa using hf)
    · rw [link, Function.update_of_ne hk]
      exact h

theorem WellFormed.park (h : s.WellFormed) (hf : s.mode f = .outside) (op : ω) :
    (s.park f op).WellFormed := by
  have hnot : ∀ k, f ∉ s.queue k := h.not_linked fun k => by rw [hf]; exact id
  have hready : f ∉ s.ready := h.not_ready (by rw [hf]; rfl)
  refine h.change (f := f) (fun k => ?_) (fun k g hg => ?_) (fun k => nodup_link (h.nodup k) (hnot k))
    (fun op' he => by simp at he) ⟨fun hm => absurd hm hready, fun hm => absurd hm Bool.false_ne_true⟩
    (fun _ _ => Iff.rfl) h.ready_nodup (fun _ _ hg => by simp at hg)
  · rw [mem_link]
    simp [hnot k, Mode.linked]
  · rw [mem_link]
    simp [hg]

omit [DecidableEq κ] in
theorem WellFormed.wake (h : s.WellFormed) {queue : κ → List F} {op : ω}
    (hf : (s.mode f).notify = .notified op) (hnot : ∀ k, f ∉ queue k)
    (hqueue : ∀ k g, g ≠ f → (g ∈ queue k ↔ g ∈ s.queue k)) (hnodup : ∀ k, (queue k).Nodup) :
    ({ s with queue := queue }.setReady f).WellFormed := by
  refine h.change (f := f) (fun k => ?_) hqueue hnodup (fun op' he => ?_) ?_ (fun g hg => ?_) ?_
    fun g op' hg => ?_
  · simp only [hf]
    exact ⟨fun hm => absurd hm (hnot k), fun hm => hm.elim⟩
  · simp only [hf] at he
    exact absurd he (by simp)
  · simp only [hf]
    exact ⟨fun _ => rfl, fun _ => by simp⟩
  · simp [List.mem_erase_of_ne hg, hg]
  · refine (h.ready_nodup.erase f).append (List.nodup_singleton f) ?_
    simpa using h.ready_nodup.not_mem_erase
  · have hout := h.running g op' hg
    have hgf : g ≠ f := by
      rintro rfl
      rw [hout] at hf
      exact absurd hf (by simp [Mode.notify])
    rw [Function.update_of_ne hgf]
    exact hout

omit [DecidableEq F] [DecidableEq κ] in
theorem WellFormed.of_mem (h : s.WellFormed) (hf : f ∈ s.queue k) :
    ∃ op, (s.mode f = .suspended op ∨ s.mode f = .expired op) ∧ Wait.queue op = some k :=
  Mode.linked_iff.mp ((h.linked k f).mp hf)

omit [DecidableEq F] [DecidableEq κ] in
/-- A fiber is linked in one queue at most. -/
theorem WellFormed.queue_inj (h : s.WellFormed) {k' : κ} (hf : f ∈ s.queue k) (hf' : f ∈ s.queue k') :
    k = k' := by
  obtain ⟨op, hm, hop⟩ := h.of_mem hf
  have hlinked := (h.linked k' f).mp hf'
  have hop' : Wait.queue op = some k' := by
    rcases hm with hm | hm
    · rwa [hm] at hlinked
    · rwa [hm] at hlinked
  exact Option.some.inj (hop.symm.trans hop')

theorem WellFormed.wakeOne (h : s.WellFormed) (k : κ) : (s.wakeOne k).WellFormed := by
  rw [Fibers.wakeOne]
  cases hqueue : s.queue k with
  | nil => exact h
  | cons f rest =>
    have hmem : f ∈ s.queue k := by rw [hqueue]; exact List.mem_cons_self
    obtain ⟨op, hm, _⟩ := h.of_mem hmem
    have hnodup := h.nodup k
    rw [hqueue, List.nodup_cons] at hnodup
    refine h.wake (Mode.notify_of_waits hm) (fun k' => ?_) (fun k' g hg => ?_) fun k' => ?_
    · by_cases hk : k' = k
      · subst hk
        rw [Function.update_self]
        exact hnodup.1
      · rw [Function.update_of_ne hk]
        exact fun hm => hk (h.queue_inj hm hmem)
    · by_cases hk : k' = k
      · subst hk
        rw [Function.update_self, hqueue, List.mem_cons, or_iff_right hg]
      · rw [Function.update_of_ne hk]
    · by_cases hk : k' = k
      · subst hk
        rw [Function.update_self]
        exact hnodup.2
      · rw [Function.update_of_ne hk]
        exact h.nodup k'

theorem WellFormed.wakeAll (h : s.WellFormed) (k : κ) : (s.wakeAll k).WellFormed := by
  rw [Fibers.wakeAll]
  generalize (s.queue k).length = n
  induction n generalizing s with
  | zero => exact h
  | succ n ih =>
    rw [Function.iterate_succ_apply]
    exact ih (h.wakeOne k)

omit [DecidableEq κ] in
theorem WellFormed.setReady (h : s.WellFormed) (hf : (s.mode f).notify = .notified op)
    (hnot : ∀ k, f ∉ s.queue k) : (s.setReady f).WellFormed :=
  h.wake hf hnot (fun _ _ _ => Iff.rfl) h.nodup

omit [DecidableEq κ] in
theorem WellFormed.expire (h : s.WellFormed) (hf : s.mode f = .suspended op)
    (hover : s.overdue op = true) : (s.expire f op).WellFormed := by
  have hready : f ∉ s.ready := h.not_ready (by rw [hf]; rfl)
  refine h.change (f := f) (fun k => ?_) (fun _ _ _ => Iff.rfl) h.nodup (fun op' he => ?_) ?_
    (fun g hg => ?_) ?_ fun g op' hg => ?_
  · show f ∈ s.queue k ↔ _
    rw [h.linked k f, hf]
    rfl
  · rw [Mode.expired.injEq] at he
    exact he ▸ hover
  · exact ⟨fun _ => rfl, fun _ => by simp⟩
  · simp [hg]
  · exact h.ready_nodup.append (List.nodup_singleton f) (by simpa using hready)
  · have hout := h.running g op' hg
    have hgf : g ≠ f := by
      rintro rfl
      rw [hf] at hout
      exact absurd hout (by simp)
    rw [Function.update_of_ne hgf]
    exact hout

omit [DecidableEq κ] in
/-- A ready fiber goes on and leaves the queues it may be linked in. -/
theorem WellFormed.pick (h : s.WellFormed) {queue : κ → List F} (hnot : ∀ k, f ∉ queue k)
    (hqueue : ∀ k g, g ≠ f → (g ∈ queue k ↔ g ∈ s.queue k)) (hnodup : ∀ k, (queue k).Nodup) :
    ({ s with queue := queue }.pick f).WellFormed := by
  refine h.change (f := f) (fun k => ?_) hqueue hnodup (fun op' he => by simp at he) ?_
    (fun g hg => ?_) (h.ready_nodup.erase f) fun g op' hg => ?_
  · exact ⟨fun hm => absurd hm (hnot k), fun hm => hm.elim⟩
  · exact ⟨fun hm => absurd hm h.ready_nodup.not_mem_erase, fun hm => absurd hm Bool.false_ne_true⟩
  · simp [List.mem_erase_of_ne hg]
  · by_cases hgf : g = f
    · rw [hgf, Function.update_self]
    · rw [Function.update_of_ne hgf]
      exact h.running g op' hg

omit [DecidableEq κ] in
theorem WellFormed.resumed (h : s.WellFormed) (hnot : ∀ k, f ∉ s.queue k) :
    (s.pick f).WellFormed :=
  h.pick hnot (fun _ _ _ => Iff.rfl) h.nodup

omit [DecidableEq κ] in
theorem WellFormed.giveUp (h : s.WellFormed) : ((s.waitUnlink f).pick f).WellFormed :=
  h.pick (fun k => (h.nodup k).not_mem_erase) (fun _ _ hg => List.mem_erase_of_ne hg)
    fun k => (h.nodup k).erase f

/-! ### Queues -/

omit [Wait ω κ] in
theorem wakeOne_queue (s : Fibers F κ ω) (k : κ) :
    (s.wakeOne k).queue = Function.update s.queue k (s.queue k).tail := by
  cases hqueue : s.queue k with
  | nil =>
    rw [List.tail_nil, ← hqueue, Function.update_eq_self]
    simp only [wakeOne, hqueue]
  | cons f rest =>
    simp only [wakeOne, hqueue]
    rfl

omit [Wait ω κ] in
theorem wakeOne_running (s : Fibers F κ ω) (k : κ) : (s.wakeOne k).running = s.running := by
  rw [wakeOne]
  cases s.queue k <;> rfl

omit [Wait ω κ] in
theorem wakeOne_nil {k' : κ} (h : s.queue k' = []) (k : κ) : (s.wakeOne k).queue k' = [] := by
  rw [wakeOne_queue]
  by_cases hk : k' = k
  · subst hk
    rw [Function.update_self, h]
    rfl
  · rw [Function.update_of_ne hk]
    exact h

omit [Wait ω κ] [DecidableEq κ] in
theorem waitUnlink_nil (h : s.queue k = []) (f : F) : (s.waitUnlink f).queue k = [] := by
  show (s.queue k).erase f = []
  rw [h]
  rfl

omit [Wait ω κ] in
theorem wakeAll_queue (s : Fibers F κ ω) (k : κ) :
    (s.wakeAll k).queue = Function.update s.queue k [] := by
  rw [wakeAll]
  generalize hn : (s.queue k).length = n
  induction n generalizing s with
  | zero =>
    rw [← List.eq_nil_of_length_eq_zero hn, Function.update_eq_self]
    rfl
  | succ n ih =>
    rw [Function.iterate_succ_apply, ih (s.wakeOne k), wakeOne_queue, Function.update_idem]
    rw [wakeOne_queue, Function.update_self, List.length_tail, hn]
    rfl

theorem WellFormed.wakeOne_mode (h : s.WellFormed) (k : κ) (g : F) :
    (s.wakeOne k).mode g = s.mode g ∨ ∃ op, (s.mode g = .suspended op ∨ s.mode g = .expired op) ∧
      Wait.queue op = some k ∧ (s.wakeOne k).mode g = .notified op := by
  cases hqueue : s.queue k with
  | nil =>
    left
    simp only [Fibers.wakeOne, hqueue]
  | cons f rest =>
    have hmode : (s.wakeOne k).mode = Function.update s.mode f (s.mode f).notify := by
      simp only [Fibers.wakeOne, hqueue]
      rfl
    rw [hmode]
    by_cases hg : g = f
    · right
      subst hg
      rw [Function.update_self]
      obtain ⟨op, hm, hop⟩ := h.of_mem (f := g) (k := k) (by rw [hqueue]; exact List.mem_cons_self)
      exact ⟨op, hm, hop, Mode.notify_of_waits hm⟩
    · left
      rw [Function.update_of_ne hg]

theorem WellFormed.wakeAll_mode (h : s.WellFormed) (k : κ) (g : F) :
    (s.wakeAll k).mode g = s.mode g ∨ ∃ op, (s.mode g = .suspended op ∨ s.mode g = .expired op) ∧
      Wait.queue op = some k ∧ (s.wakeAll k).mode g = .notified op := by
  rw [Fibers.wakeAll]
  generalize (s.queue k).length = n
  induction n generalizing s with
  | zero => exact .inl rfl
  | succ n ih =>
    rw [Function.iterate_succ_apply]
    rcases ih (h.wakeOne k) with hrest | ⟨op, hrest, hop, hlast⟩
    · rw [hrest]
      exact h.wakeOne_mode k g
    · right
      refine ⟨op, ?_, hop, hlast⟩
      rcases h.wakeOne_mode k g with hfirst | ⟨op', _, _, hfirst⟩
      · rwa [hfirst] at hrest
      · rw [hfirst] at hrest
        simp at hrest

omit [DecidableEq F] [DecidableEq κ] in
theorem WellFormed.woken_of_left (h : s.WellFormed) {t : Fibers F κ ω} (ht : t.WellFormed) {g : F}
    (hmode : t.mode g = s.mode g ∨ ∃ op, (s.mode g = .suspended op ∨ s.mode g = .expired op) ∧
      Wait.queue op = some k ∧ t.mode g = .notified op)
    (hin : g ∈ s.queue k) (hout : g ∉ t.queue k) :
    ∃ op, (s.mode g = .suspended op ∨ s.mode g = .expired op) ∧ Wait.queue op = some k ∧
      t.mode g = .notified op := by
  rcases hmode with hsame | hwoken
  · have hlinked := (h.linked k g).mp hin
    rw [← hsame] at hlinked
    exact absurd ((ht.linked k g).mpr hlinked) hout
  · exact hwoken

omit [DecidableEq F] [DecidableEq κ] in
theorem WellFormed.kept (h : s.WellFormed) {t : Fibers F κ ω} (ht : t.WellFormed) {g : F}
    (hmode : t.mode g = s.mode g ∨ ∃ op, (s.mode g = .suspended op ∨ s.mode g = .expired op) ∧
      Wait.queue op = some k ∧ t.mode g = .notified op)
    (hstay : g ∈ s.queue k → g ∈ t.queue k) : t.mode g = s.mode g := by
  rcases hmode with hsame | ⟨op, hm, hop, hlast⟩
  · exact hsame
  · have hin : g ∈ s.queue k := (h.linked k g).mpr (Mode.linked_iff.mpr ⟨op, hm, hop⟩)
    have hlinked := (ht.linked k g).mp (hstay hin)
    rw [hlast] at hlinked
    exact hlinked.elim

theorem park_eq (s : Fibers F κ ω) (f : F) (hop : Wait.queue op = some k) :
    s.park f op = (s.waitLink f k).suspend f op := by
  simp only [park, suspend, waitLink, setMode, hop]

omit [Wait ω κ] in
theorem wakeOne_suspend (hf : (s.queue k).head? ≠ some f) (op : ω) :
    (s.wakeOne k).suspend f op = { (s.suspend f op).wakeOne k with running := none } := by
  cases hqueue : s.queue k with
  | nil => simp only [wakeOne, suspend, setMode, hqueue]
  | cons first rest =>
    have hne : first ≠ f := by simpa [hqueue] using hf
    simp only [wakeOne, suspend, setMode, setReady, hqueue]
    rw [Function.update_comm hne.symm, Function.update_of_ne hne]

/-! ### Counting the fibers that have been woken -/

theorem WellFormed.wakes_wake (h : s.WellFormed) (queue : κ → List F)
    (hf : (s.mode f).notify = .notified op) (hwoken : (s.mode f).woken k = false) :
    ({ s with queue := queue }.setReady f).wakes k =
      s.wakes k + if Wait.queue op = some k then 1 else 0 := by
  have hold : (s.ready.erase f).countP (fun g => (Function.update s.mode f (.notified op) g).woken k) =
      s.wakes k := by
    have hcongr : (s.ready.erase f).countP (fun g => (Function.update s.mode f (.notified op) g).woken k) =
        (s.ready.erase f).countP fun g => (s.mode g).woken k := by
      refine List.countP_congr fun g hg => ?_
      have hgf : g ≠ f := fun he => h.ready_nodup.not_mem_erase (he ▸ hg)
      rw [Function.update_of_ne hgf]
    rw [hcongr, List.countP_erase, if_neg (by rw [hwoken]; simp), Nat.sub_zero]
    rfl
  show (s.ready.erase f ++ [f]).countP
    (fun g => (Function.update s.mode f (s.mode f).notify g).woken k) = _
  rw [hf, List.countP_append, hold, List.countP_singleton, Function.update_self]
  simp only [Mode.woken, decide_eq_true_eq]

theorem WellFormed.wakes_wakeOne (h : s.WellFormed) (k k' : κ) :
    (s.wakeOne k).wakes k' = s.wakes k' + if s.queue k ≠ [] ∧ k = k' then 1 else 0 := by
  rw [Fibers.wakeOne]
  cases hqueue : s.queue k with
  | nil => simp
  | cons f rest =>
    obtain ⟨op, hm, hop⟩ := h.of_mem (f := f) (k := k) (by rw [hqueue]; exact List.mem_cons_self)
    have hwakes := h.wakes_wake (Function.update s.queue k rest) (Mode.notify_of_waits hm)
      (Mode.not_woken_of_waits hm k')
    simp only [hwakes, hop, Option.some.injEq]
    simp

theorem WellFormed.wakes_park (h : s.WellFormed) (hf : s.mode f = .outside) (op : ω) :
    (s.park f op).wakes k = s.wakes k := by
  have hready : f ∉ s.ready := h.not_ready (by rw [hf]; rfl)
  refine List.countP_congr fun g hg => ?_
  have hgf : g ≠ f := fun he => hready (he ▸ hg)
  show (Function.update s.mode f _ g).woken k = true ↔ _
  rw [Function.update_of_ne hgf]

theorem WellFormed.wakes_expire (h : s.WellFormed) (hf : s.mode f = .suspended op) :
    (s.expire f op).wakes k = s.wakes k := by
  have hready : f ∉ s.ready := h.not_ready (by rw [hf]; rfl)
  have hcongr : s.ready.countP (fun g => (Function.update s.mode f (.expired op) g).woken k) =
      s.wakes k := by
    refine List.countP_congr fun g hg => ?_
    have hgf : g ≠ f := fun he => hready (he ▸ hg)
    rw [Function.update_of_ne hgf]
  show (s.ready ++ [f]).countP (fun g => (Function.update s.mode f (.expired op) g).woken k) = _
  rw [List.countP_append, hcongr, List.countP_singleton, Function.update_self]
  rfl

theorem WellFormed.wakes_pick (h : s.WellFormed) (queue : κ → List F) (hf : f ∈ s.ready) :
    ({ s with queue := queue }.pick f).wakes k + (if (s.mode f).woken k then 1 else 0) = s.wakes k := by
  have hcongr : (s.ready.erase f).countP (fun g => (Function.update s.mode f .outside g).woken k) =
      (s.ready.erase f).countP fun g => (s.mode g).woken k := by
    refine List.countP_congr fun g hg => ?_
    have hgf : g ≠ f := fun he => h.ready_nodup.not_mem_erase (he ▸ hg)
    rw [Function.update_of_ne hgf]
  have hpos : (s.mode f).woken k = true → 0 < s.ready.countP fun g => (s.mode g).woken k :=
    fun hw => List.countP_pos_iff.mpr ⟨f, hf, hw⟩
  show (s.ready.erase f).countP (fun g => (Function.update s.mode f .outside g).woken k) + _ = _
  rw [hcongr, List.countP_erase, Fibers.wakes]
  by_cases hw : (s.mode f).woken k = true
  · have hpos' := hpos hw
    rw [if_pos ⟨hf, hw⟩, if_pos hw]
    omega
  · rw [if_neg fun hb => hw hb.2, if_neg hw]
    rfl

/-! ### No waiter is forgotten -/

/-- For each queue in which fibers wait, as many of its fibers have been woken as there is for them to
do. -/
def Covered (s : Fibers F κ ω) (load : κ → Nat) : Prop :=
  ∀ k, s.queue k ≠ [] → load k ≤ s.wakes k + s.runs k

/-- One of the woken fibers of a queue is not needed. -/
def Spare (s : Fibers F κ ω) (load : κ → Nat) (k : κ) : Prop := s.queue k = [] ∨ load k < s.wakes k

instance (s : Fibers F κ ω) (load : κ → Nat) (k : κ) : Decidable (s.Spare load k) :=
  decidable_of_iff ((s.queue k).isEmpty = true ∨ load k < s.wakes k) (by rw [Spare, List.isEmpty_iff])

variable {load : κ → Nat}

omit [DecidableEq F] in
theorem runs_none (h : s.running = none) : s.runs k = 0 := by
  rw [runs, h]

omit [DecidableEq F] in
theorem runs_some (h : s.running = some (f, op)) :
    s.runs k = if Wait.queue op = some k then 1 else 0 := by
  rw [runs, h]

omit [DecidableEq F] in
theorem Covered.nothing (h : s.Covered load) (hquiet : s.Quiescent) (hk : s.queue k ≠ []) :
    load k = 0 := by
  have hwakes : s.wakes k = 0 := by
    rw [wakes, hquiet.ready]
    rfl
  have hle := h k hk
  rw [hwakes, runs_none hquiet.running] at hle
  exact Nat.le_zero.mp hle

omit [DecidableEq F] in
theorem Covered.run (h : s.Covered load) (hrunning : s.running = none) (f : F) (op : ω) :
    (s.run f op).Covered load := by
  intro k hk
  have hle := h k hk
  rw [runs_none hrunning] at hle
  exact Nat.le_trans hle (Nat.le_add_right _ _)

theorem WellFormed.covered_expire (h : s.WellFormed) (hc : s.Covered load)
    (hf : s.mode f = .suspended op) : (s.expire f op).Covered load := by
  intro k hk
  rw [h.wakes_expire hf]
  exact hc k hk

theorem WellFormed.covered_again (h : s.WellFormed) (hc : s.Covered load) (hrunning : s.running = none)
    (hf : s.mode f = .notified op) : ((s.pick f).run f op).Covered load := by
  intro k hk
  have hready : f ∈ s.ready := (h.ready f).mpr (by rw [hf]; rfl)
  have hwakes : (s.pick f).wakes k + (if (s.mode f).woken k then 1 else 0) = s.wakes k :=
    h.wakes_pick s.queue hready
  have hle := hc k hk
  rw [runs_none hrunning] at hle
  have hruns : ((s.pick f).run f op).runs k = if Wait.queue op = some k then 1 else 0 := runs_some rfl
  have hsame : ((s.pick f).run f op).wakes k = (s.pick f).wakes k := rfl
  rw [hruns, hsame]
  simp only [hf, Mode.woken, decide_eq_true_eq] at hwakes
  omega

theorem WellFormed.covered_leave (h : s.WellFormed) (hc : s.Covered load) (hrunning : s.running = none)
    (hf : (s.mode f).isReady = true) {queue : κ → List F}
    (hqueue : ∀ k, s.queue k = [] → queue k = [])
    (hspare : ∀ k, (s.mode f).woken k = true → s.Spare load k) :
    ({ s with queue := queue }.pick f).finish.Covered load := by
  intro k hk
  have hwakes := h.wakes_pick queue ((h.ready f).mpr hf) (k := k)
  have hne : s.queue k ≠ [] := fun hnil => hk (hqueue k hnil)
  have hle := hc k hne
  rw [runs_none hrunning] at hle
  have hruns : ({ s with queue := queue }.pick f).finish.runs k = 0 := runs_none rfl
  have hsame : ({ s with queue := queue }.pick f).finish.wakes k =
      ({ s with queue := queue }.pick f).wakes k := rfl
  rw [hruns, hsame]
  by_cases hw : (s.mode f).woken k = true
  · rw [if_pos hw] at hwakes
    have hlt := (hspare k hw).resolve_left hne
    omega
  · rw [if_neg hw] at hwakes
    omega

theorem WellFormed.covered_giveUp (h : s.WellFormed) (hc : s.Covered load) (hrunning : s.running = none)
    (hf : (s.mode f).isReady = true)
    (hspare : ∀ k, (s.mode f).woken k = true → s.Spare load k) :
    ((s.waitUnlink f).pick f).finish.Covered load :=
  h.covered_leave hc hrunning hf (fun _ hnil => waitUnlink_nil hnil f) hspare

theorem WellFormed.covered_wake (h : s.WellFormed) (k : κ)
    (hload : ∀ k', s.queue k' ≠ [] → load k' ≤ s.wakes k' + if k = k' then 1 else 0) :
    (s.wakeOne k).finish.Covered load := by
  intro k' hk'
  have hne : s.queue k' ≠ [] := fun hnil => hk' (wakeOne_nil hnil k)
  have hwakes := h.wakes_wakeOne k k'
  have hsame : (s.wakeOne k).finish.wakes k' = (s.wakeOne k).wakes k' := rfl
  have hle := hload k' hne
  rw [hsame, hwakes]
  by_cases hk : k = k'
  · subst hk
    rw [if_pos rfl] at hle
    rw [if_pos ⟨hne, rfl⟩]
    omega
  · rw [if_neg hk] at hle
    omega

theorem WellFormed.covered_setReady (h : s.WellFormed) (hc : s.Covered load)
    (hf : (s.mode f).notify = .notified op) (hop : Wait.queue op = none)
    (hwoken : ∀ k, (s.mode f).woken k = false) : (s.setReady f).Covered load := by
  intro k hk
  have hwakes : (s.setReady f).wakes k = s.wakes k + if Wait.queue op = some k then 1 else 0 :=
    h.wakes_wake s.queue hf (hwoken k)
  rw [hop, if_neg (by simp)] at hwakes
  rw [hwakes]
  exact hc k hk

theorem WellFormed.covered_suspend (h : s.WellFormed) (hf : s.mode f = .outside)
    (hc : s.finish.Covered load) (hload : ∀ k, Wait.queue op = some k → load k = 0) :
    (s.park f op).Covered load := by
  intro k hk
  have hruns : (s.park f op).runs k = 0 := runs_none rfl
  rw [h.wakes_park hf, hruns]
  by_cases hop : Wait.queue op = some k
  · rw [hload k hop]
    exact Nat.zero_le _
  · refine hc k fun hnil => hk (List.eq_nil_iff_forall_not_mem.mpr fun g hg => ?_)
    rcases mem_link.mp hg with hm | ⟨_, hm⟩
    · exact absurd hm (List.eq_nil_iff_forall_not_mem.mp hnil g)
    · exact hop hm

theorem WellFormed.covered_park (h : s.WellFormed) (hc : s.Covered load)
    (hrunning : s.running = some (f, op)) (hload : ∀ k, Wait.queue op = some k → load k = 0) :
    (s.park f op).Covered load := by
  refine h.covered_suspend (h.running f op hrunning) (fun k hk => ?_) hload
  by_cases hop : Wait.queue op = some k
  · rw [hload k hop]
    exact Nat.zero_le _
  · have hle := hc k hk
    rw [runs_some hrunning, if_neg hop] at hle
    exact hle

end Fibers

end Transition
