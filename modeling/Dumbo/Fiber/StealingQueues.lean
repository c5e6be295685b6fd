import Dumbo.Fiber.ContextSpmcQueueCalls
import Dumbo.Fiber.WorkStealing

/-!
# Schedulers that steal

The schedulers of several threads with `algo::work_stealing`, where each access of a thread to an atomic of a
`context_spmc_queue` is a step: the others come between any two accesses of a call. To the schedulers a call
happens at once, and a worker that has been pushed is popped in its turn and run by the thread that pops it.
-/

namespace Dumbo.Fiber.StealingQueues

open Transition
open ContextSpmcQueue (Call Result)
open Threads (CtxId ThreadPc)

variable {T : Type}

structure State (T : Type) where
  /-- the schedulers; what each `rqueue_` holds is recorded here, and no step depends on the record -/
  threads : Threads.State T
  rqueue : T → ContextSpmcQueue.State T (CtxId T)
  /-- the thread on whose `rqueue_` a thread makes a call -/
  target : T → Option T

/-- What the context that is picked will ready. -/
def readyCtx : ThreadPc T → Option (CtxId T)
  | .picking readyCtx | .stealing readyCtx => readyCtx
  | _ => none

/-- The step is an operation on a queue of ready workers. -/
def operates (threads : Threads.State T) : Threads.Action T → Bool
  | .go t =>
    match (threads.thread t).pc with
    | .picking _ | .pushing _ _ => true
    | _ => false
  | .lose _ | .steal _ _ _ => true
  | _ => false

variable [DecidableEq T]

section Returned

variable [Fintype T]

/-- A thread goes on with the result of its call. -/
def returned (threads : Threads.State T) (t v : T) : Result (CtxId T) → Threads.State T
  | .pushed => (threads.go .workStealing t).getD threads
  | .popped ctx => threads.pop t (some v) ctx (threads.rqueue (some v)).tail (readyCtx (threads.thread t).pc)
  | .null =>
    match (threads.thread t).pc with
    | .picking readyCtx => threads.pickLocal .workStealing t readyCtx
    | _ => threads.pickNull t

end Returned

namespace State

def setRqueue (s : State T) (v : T) (q : ContextSpmcQueue.State T (CtxId T)) : State T :=
  { s with rqueue := Function.update s.rqueue v q }

def setTarget (s : State T) (t : T) (target : Option T) : State T :=
  { s with target := Function.update s.target t target }

/-- The scheduler with the queue is destroyed. -/
def dangling (s : State T) : State T := { s with threads := s.threads.fail .dangling }

def call (s : State T) (t v : T) (a : ContextSpmcQueue.Action T (CtxId T)) : Option (State T) :=
  if (s.threads.thread v).pc = .destroyed then some s.dangling
  else (ContextSpmcQueue.step v (s.rqueue v) a).map fun q => (s.setRqueue v q).setTarget t (some v)

/-- `rqueue_.push` in `awakened`, `rqueue_.pop` in `pick_next`, and `steal` of another thread. -/
def enter (s : State T) (t v : T) : Option (State T) :=
  match (s.threads.thread t).pc with
  | .pushing ctx _ => if v = t then s.call t v (.push ctx) else none
  | .picking _ => if v = t then s.call t v (.pop t) else none
  | .stealing _ => if v = t then none else s.call t v (.pop t)
  | _ => none

variable [Fintype T]

/-- The next access of the call of a thread. -/
def access (s : State T) (t v : T) : Option (State T) :=
  if (s.threads.thread v).pc = .destroyed then some s.dangling
  else (ContextSpmcQueue.step v (s.rqueue v) (.go t)).map fun q =>
    match (s.rqueue v).returns t with
    | none => s.setRqueue v q
    | some r => { (s.setRqueue v q).setTarget t none with threads := returned s.threads t v r }

/-- No assertion has failed, and no `pop` has read a slot without a context. -/
def Running (s : State T) : Prop := s.threads.fault = none ∧ ∀ v, (s.rqueue v).fault = false

instance (s : State T) : Decidable s.Running := inferInstanceAs (Decidable (_ ∧ _))

end State

inductive Action (T : Type)
  | sched (a : Threads.Action T)
  | enter (t v : T)
  | access (t : T)
  deriving DecidableEq, Repr

def Action.thread : Action T → T
  | .sched a => a.thread
  | .enter t _ | .access t => t

variable [Fintype T] {suspend : Bool} {s s' : State T} {t v : T} {c : CtxId T}

def enabledStep (suspend : Bool) (s : State T) : Action T → Option (State T)
  | .sched a =>
    if s.target a.thread = none ∧ operates s.threads a = false then
      (Threads.step .workStealing suspend s.threads a).map fun threads => { s with threads := threads }
    else none
  | .enter t v => if s.target t = none then s.enter t v else none
  | .access t => (s.target t).bind fun v => s.access t v

def step (suspend : Bool) (s : State T) (a : Action T) : Option (State T) :=
  if s.Running then enabledStep suspend s a else none

omit [DecidableEq T] [Fintype T] in
def start : State T := ⟨Threads.start, fun _ => ContextSpmcQueue.create, fun _ => none⟩

variable (T) in
def machine (suspend : Bool) : Machine (State T) (Action T) := ⟨start, step suspend⟩

/-! ### Steps of the schedulers -/

section Schedulers

variable {x y : Threads.State T}

theorem sched_rqueue {a : Threads.Action T} (hop : operates x a = false)
    (hs : Threads.step .workStealing suspend x a = some y) : y.rqueue = x.rqueue := by
  obtain ⟨-, rfl⟩ := Option.ite_none_right_eq_some.mp hs |>.imp_right Option.some.inj
  cases a with
  | go t =>
    cases hpc : (x.thread t).pc with
    | picking r | pushing c next => simp [operates, hpc] at hop
    | _ => simp [Threads.perform, Threads.State.go, hpc]
  | lose t | steal t v lost => cases hop
  | _ => exact Threads.perform_rqueue .workStealing suspend x (by simp) (by simp)

/-- One step of the thread. -/
def Performs (suspend : Bool) (x : Threads.State T) (t : T) (y : Threads.State T) : Prop :=
  ∃ b, b.thread = t ∧ Threads.step .workStealing suspend x b = some y

/-- Where a thread stands that is in a call on the queue of `v`. -/
def Calls (pc : ThreadPc T) (t v : T) : Option (Call (CtxId T)) → Prop
  | none => False
  | some (.push ctx) => v = t ∧ ∃ next, pc = .pushing ctx next
  | some .pop => (v = t ∧ ∃ r, pc = .picking r) ∨ (v ≠ t ∧ ∃ r, pc = .stealing r)

theorem performs {b : Threads.Action T} (hrun : x.fault = none)
    (henabled : Threads.enabled .workStealing suspend x b = true)
    (hperform : Threads.perform .workStealing suspend x b = y) : Performs suspend x b.thread y :=
  ⟨b, rfl, (if_pos ⟨hrun, henabled⟩).trans (congrArg some hperform)⟩

variable (suspend) in
theorem returned_pushed (hrun : x.fault = none) (hcall : Calls (x.thread t).pc t v (some (.push c))) :
    Performs suspend x t (returned x t v .pushed) ∧
      (returned x t v .pushed).rqueue = Function.update x.rqueue (some v) (x.rqueue (some v) ++ [c]) := by
  obtain ⟨rfl, next, hpc⟩ := hcall
  have hgo : x.go .workStealing v = some ((x.setQueue (some v) (x.rqueue (some v) ++ [c])).setPc v next.pc) := by
    simp [Threads.State.go, hpc, Threads.Algo.rqueue]
  constructor
  · apply performs (b := .go v) hrun
    · simp [Threads.enabled, hgo]
    · rfl
  · simp [returned, hgo, Threads.State.setQueue]

variable (suspend) in
theorem returned_popped (hrun : x.fault = none) (hcall : Calls (x.thread t).pc t v (some .pop))
    (hthere : (x.thread v).pc ≠ .destroyed) {rest : List (CtxId T)} (hq : x.rqueue (some v) = c :: rest) :
    Performs suspend x t (returned x t v (.popped c)) ∧
      (returned x t v (.popped c)).rqueue = Function.update x.rqueue (some v) rest := by
  rcases hcall with ⟨rfl, r, hpc⟩ | ⟨hne, r, hpc⟩
  · have hpop : returned x v v (.popped c) = x.pop v (some v) c rest r := by
      simp [returned, hpc, readyCtx, hq]
    have hgo : x.go .workStealing v = some (x.pop v (some v) c rest r) := by
      simp [Threads.State.go, hpc, Threads.State.pickNext, Threads.Algo.rqueue, hq]
    rw [hpop]
    refine ⟨?_, rfl⟩
    apply performs (b := .go v) hrun
    · simp [Threads.enabled, hgo]
    · simp [Threads.perform, hgo]
  · have hpop : returned x t v (.popped c) = x.pop t (some v) c rest r := by
      simp [returned, hpc, readyCtx, hq]
    rw [hpop]
    refine ⟨?_, rfl⟩
    apply performs (b := .steal t v false) hrun
    · simp [Threads.enabled, hpc, ThreadPc.steals, hne]
    · simp [Threads.perform, hpc, ThreadPc.steals, Threads.State.steal, hthere, hq]

variable (suspend) in
theorem returned_null (hrun : x.fault = none) (hcall : Calls (x.thread t).pc t v (some .pop))
    (hthere : (x.thread v).pc ≠ .destroyed) :
    Performs suspend x t (returned x t v .null) ∧ (returned x t v .null).rqueue = x.rqueue := by
  rcases hcall with ⟨rfl, r, hpc⟩ | ⟨hne, r, hpc⟩
  · have hnull : returned x v v .null = x.pickLocal .workStealing v r := by simp [returned, hpc]
    rw [hnull]
    refine ⟨?_, Threads.pickLocal_rqueue x v r⟩
    apply performs (b := .lose v) hrun
    · simp [Threads.enabled, hpc, ThreadPc.picks]
    · simp [Threads.perform, hpc, ThreadPc.picks]
  · have hnull : returned x t v .null = x.pickNull t := by simp [returned, hpc]
    rw [hnull]
    refine ⟨?_, Threads.pickNull_rqueue x t⟩
    apply performs (b := .steal t v true) hrun
    · simp [Threads.enabled, hpc, ThreadPc.steals, hne]
    · simp [Threads.perform, hpc, ThreadPc.steals, Threads.State.steal, hthere]

theorem dangling_performs (hrun : x.fault = none) {call : Option (Call (CtxId T))}
    (hcall : Calls (x.thread t).pc t v call) (hdown : (x.thread v).pc = .destroyed) :
    Performs suspend x t (x.fail .dangling) := by
  rcases call with _ | ctx | _
  · exact absurd hcall id
  · obtain ⟨rfl, next, hpc⟩ := hcall
    cases hdown.symm.trans hpc
  · rcases hcall with ⟨rfl, r, hpc⟩ | ⟨hne, r, hpc⟩
    · cases hdown.symm.trans hpc
    · apply performs (b := .steal t v true) hrun
      · simp [Threads.enabled, hpc, ThreadPc.steals, hne]
      · simp [Threads.perform, hpc, ThreadPc.steals, Threads.State.steal, hdown]

end Schedulers

/-! ### Steps of the calls -/

omit [Fintype T] in
theorem call_cases {a : ContextSpmcQueue.Action T (CtxId T)} (hs : s.call t v a = some s') :
    ((s.threads.thread v).pc = .destroyed ∧ s' = s.dangling) ∨
      ∃ q, ContextSpmcQueue.step v (s.rqueue v) a = some q ∧ s' = (s.setRqueue v q).setTarget t (some v) := by
  rw [State.call] at hs
  split at hs
  · rename_i hdown
    exact .inl ⟨hdown, (Option.some.inj hs).symm⟩
  · obtain ⟨q, hq, rfl⟩ := Option.map_eq_some_iff.mp hs
    exact .inr ⟨q, hq, rfl⟩

omit [Fintype T] in
/-- A thread enters the call that it stands before. -/
theorem enter_cases (hs : s.enter t v = some s') :
    ∃ a pc, s.call t v a = some s' ∧ Calls (s.threads.thread t).pc t v (ContextSpmcQueue.Pc.call pc) ∧
      ∀ q, ContextSpmcQueue.step v (s.rqueue v) a = some q → q = (s.rqueue v).goto t pc := by
  rw [State.enter] at hs
  split at hs
  case h_1 ctx next hpc =>
    split at hs
    · rename_i hv
      subst hv
      exact ⟨.push ctx, .pushBottom ctx, hs, ⟨rfl, next, hpc⟩, fun q => ContextSpmcQueue.step_push⟩
    · cases hs
  case h_2 r hpc =>
    split at hs
    · rename_i hv
      subst hv
      exact ⟨.pop v, .popTop, hs, .inl ⟨rfl, r, hpc⟩, fun q => ContextSpmcQueue.step_pop⟩
    · cases hs
  case h_3 r hpc =>
    split at hs
    · cases hs
    · rename_i hv
      exact ⟨.pop t, .popTop, hs, .inr ⟨hv, r, hpc⟩, fun q => ContextSpmcQueue.step_pop⟩
  case h_4 => cases hs

/-- The thread goes on in its call, or returns from it. -/
theorem access_cases (hs : s.access t v = some s') :
    ((s.threads.thread v).pc = .destroyed ∧ s' = s.dangling) ∨
      ((s.threads.thread v).pc ≠ .destroyed ∧ ∃ q, ContextSpmcQueue.step v (s.rqueue v) (.go t) = some q ∧
        s'.rqueue = Function.update s.rqueue v q ∧
        (((s.rqueue v).returns t = none ∧ s' = s.setRqueue v q) ∨
          ∃ r, (s.rqueue v).returns t = some r ∧
            s' = { (s.setRqueue v q).setTarget t none with threads := returned s.threads t v r })) := by
  rw [State.access] at hs
  split at hs
  · rename_i hdown
    exact .inl ⟨hdown, (Option.some.inj hs).symm⟩
  · rename_i hthere
    obtain ⟨q, hq, hs⟩ := Option.map_eq_some_iff.mp hs
    refine .inr ⟨hthere, q, hq, ?_⟩
    cases hreturns : (s.rqueue v).returns t with
    | none =>
      rw [hreturns] at hs
      subst hs
      exact ⟨rfl, .inl ⟨rfl, rfl⟩⟩
    | some r =>
      rw [hreturns] at hs
      subst hs
      exact ⟨rfl, .inr ⟨r, rfl, rfl⟩⟩

/-! ### The calls happen at once -/

structure Inv (suspend : Bool) (s : State T) : Prop where
  threads : (Threads.machine T .workStealing suspend).Reachable s.threads
  rqueue : ∀ v, (ContextSpmcQueue.machine (CtxId T) v).Reachable (s.rqueue v)
  contexts : ∀ v, s.threads.rqueue (some v) = (s.rqueue v).contexts
  idle : ∀ t v, s.target t ≠ some v → (s.rqueue v).pc t = .idle
  calling : ∀ t v, s.target t = some v → Calls (s.threads.thread t).pc t v ((s.rqueue v).pc t).call

/-- The indices of the queues have not wrapped. -/
def Few (s : State T) : Prop := ∀ v, (s.rqueue v).pushed.length < 2 ^ 64

theorem Inv.performs (h : Inv suspend s) {x : Threads.State T} (hx : Performs suspend s.threads t x) :
    (Threads.machine T .workStealing suspend).Reachable x := by
  obtain ⟨b, -, hb⟩ := hx
  exact .step (M := Threads.machine T .workStealing suspend) (a := b) h.threads trivial hb

theorem Performs.pc_ne {x y : Threads.State T} (h : Performs suspend x t y) {u : T} (hu : u ≠ t) :
    (y.thread u).pc = (x.thread u).pc := by
  obtain ⟨b, rfl, hb⟩ := h
  exact Threads.step_pc_ne hb hu

theorem Inv.setRqueue (h : Inv suspend s) {a : ContextSpmcQueue.Action T (CtxId T)}
    {q : ContextSpmcQueue.State T (CtxId T)} (hq : ContextSpmcQueue.step v (s.rqueue v) a = some q) (w : T) :
    (ContextSpmcQueue.machine (CtxId T) w).Reachable (Function.update s.rqueue v q w) := by
  by_cases hw : w = v
  · subst hw
    rw [Function.update_self]
    exact .step (M := ContextSpmcQueue.machine (CtxId T) w) (a := a) (h.rqueue w) trivial hq
  · rw [Function.update_of_ne hw]
    exact h.rqueue w

omit [Fintype T] in
theorem setRqueue_pc {q : ContextSpmcQueue.State T (CtxId T)} {u : T} (hu : q.pc u = (s.rqueue v).pc u) (w : T) :
    (Function.update s.rqueue v q w).pc u = (s.rqueue w).pc u := by
  by_cases hw : w = v
  · subst hw
    rw [Function.update_self, hu]
  · rw [Function.update_of_ne hw]

theorem Inv.sched (h : Inv suspend s) {a : Threads.Action T} {x : Threads.State T}
    (htarget : s.target a.thread = none) (hop : operates s.threads a = false)
    (hs : Threads.step .workStealing suspend s.threads a = some x) : Inv suspend { s with threads := x } := by
  refine ⟨h.performs ⟨a, rfl, hs⟩, h.rqueue, fun v => ?_, h.idle, fun t v ht => ?_⟩
  · rw [show x.rqueue = s.threads.rqueue from sched_rqueue hop hs]
    exact h.contexts v
  · have hne : t ≠ a.thread := by
      rintro rfl
      cases htarget.symm.trans ht
    rw [show (x.thread t).pc = (s.threads.thread t).pc from Threads.step_pc_ne hs hne]
    exact h.calling t v ht

theorem Inv.dangling (h : Inv suspend s) (hrun : s.threads.fault = none) {call : Option (Call (CtxId T))}
    (hcall : Calls (s.threads.thread t).pc t v call) (hdown : (s.threads.thread v).pc = .destroyed) :
    Inv suspend s.dangling :=
  ⟨h.performs (dangling_performs hrun hcall hdown), h.rqueue, h.contexts, h.idle, h.calling⟩

/-- One thread has taken a step in a call on one queue. -/
theorem Inv.update (h : Inv suspend s) {a : ContextSpmcQueue.Action T (CtxId T)}
    {q : ContextSpmcQueue.State T (CtxId T)} (hq : ContextSpmcQueue.step v (s.rqueue v) a = some q)
    (hothers : ∀ u, u ≠ t → q.pc u = (s.rqueue v).pc u) {x : Threads.State T} {target : Option T}
    (hx : (Threads.machine T .workStealing suspend).Reachable x)
    (hpcs : ∀ u, u ≠ t → (x.thread u).pc = (s.threads.thread u).pc)
    (hcontexts : x.rqueue = Function.update s.threads.rqueue (some v) q.contexts)
    (hidle : ∀ w, target ≠ some w → (Function.update s.rqueue v q w).pc t = .idle)
    (hcalling : ∀ w, target = some w → Calls (x.thread t).pc t w ((Function.update s.rqueue v q w).pc t).call) :
    Inv suspend ⟨x, Function.update s.rqueue v q, Function.update s.target t target⟩ := by
  refine ⟨hx, h.setRqueue hq, fun w => ?_, fun u w hu => ?_, fun u w hu => ?_⟩
  · change x.rqueue (some w) = (Function.update s.rqueue v q w).contexts
    rw [hcontexts]
    by_cases hw : w = v
    · subst hw
      rw [Function.update_self, Function.update_self]
    · rw [Function.update_of_ne hw, Function.update_of_ne (fun he => hw (Option.some.inj he))]
      exact h.contexts w
  · change Function.update s.target t target u ≠ some w at hu
    by_cases hut : u = t
    · subst hut
      rw [Function.update_self] at hu
      exact hidle w hu
    · rw [setRqueue_pc (hothers u hut)]
      rw [Function.update_of_ne hut] at hu
      exact h.idle u w hu
  · change Function.update s.target t target u = some w at hu
    by_cases hut : u = t
    · subst hut
      rw [Function.update_self] at hu
      exact hcalling w hu
    · rw [setRqueue_pc (hothers u hut), hpcs u hut]
      rw [Function.update_of_ne hut] at hu
      exact h.calling u w hu

theorem Inv.same (h : Inv suspend s) {q : ContextSpmcQueue.State T (CtxId T)}
    (hsame : q.contexts = (s.rqueue v).contexts) :
    s.threads.rqueue = Function.update s.threads.rqueue (some v) q.contexts := by
  rw [hsame, ← h.contexts v, Function.update_eq_self]

theorem Inv.begin (h : Inv suspend s) (htarget : s.target t = none) {a : ContextSpmcQueue.Action T (CtxId T)}
    {q : ContextSpmcQueue.State T (CtxId T)} {pc : ContextSpmcQueue.Pc (CtxId T)}
    (hq : ContextSpmcQueue.step v (s.rqueue v) a = some q) (hgoto : q = (s.rqueue v).goto t pc)
    (hcall : Calls (s.threads.thread t).pc t v pc.call) :
    Inv suspend ((s.setRqueue v q).setTarget t (some v)) := by
  apply h.update hq _ h.threads (fun _ _ => rfl) (h.same _)
  · intro w hw
    have hne : w ≠ v := fun he => hw (congrArg some he.symm)
    rw [Function.update_of_ne hne]
    apply h.idle
    rw [htarget]
    simp
  · intro w hw
    obtain rfl := Option.some.inj hw
    rw [Function.update_self, hgoto, ContextSpmcQueue.goto_pc]
    exact hcall
  · intro u hu
    rw [hgoto]
    exact Function.update_of_ne hu _ _
  · rw [hgoto]
    rfl

/-- An access in the course of a call. -/
theorem Inv.within (h : Inv suspend s) (htarget : s.target t = some v) {q : ContextSpmcQueue.State T (CtxId T)}
    (hq : ContextSpmcQueue.step v (s.rqueue v) (.go t) = some q)
    (hcall : (q.pc t).call = ((s.rqueue v).pc t).call) (hsame : q.contexts = (s.rqueue v).contexts) :
    Inv suspend (s.setRqueue v q) := by
  have hothers : ∀ u, u ≠ t → q.pc u = (s.rqueue v).pc u := fun u hu =>
    ContextSpmcQueue.go_pc_ne (ContextSpmcQueue.step_go hq) hu
  have hinv : Inv suspend ⟨s.threads, Function.update s.rqueue v q, Function.update s.target t (some v)⟩ := by
    apply h.update hq hothers h.threads (fun _ _ => rfl) (h.same hsame)
    · intro w hw
      have hne : w ≠ v := fun he => hw (congrArg some he.symm)
      rw [Function.update_of_ne hne]
      exact h.idle t w (htarget ▸ hw)
    · intro w hw
      obtain rfl := Option.some.inj hw
      rw [Function.update_self, hcall]
      exact h.calling t v htarget
  rw [← htarget, Function.update_eq_self] at hinv
  exact hinv

/-- The last access of a call, with which the thread goes on. -/
theorem Inv.return (h : Inv suspend s) (htarget : s.target t = some v)
    {q : ContextSpmcQueue.State T (CtxId T)} (hq : ContextSpmcQueue.step v (s.rqueue v) (.go t) = some q)
    (hidle : q.pc t = .idle) {x : Threads.State T} (hperforms : Performs suspend s.threads t x)
    (hcontexts : x.rqueue = Function.update s.threads.rqueue (some v) q.contexts) :
    Inv suspend { (s.setRqueue v q).setTarget t none with threads := x } := by
  have hothers : ∀ u, u ≠ t → q.pc u = (s.rqueue v).pc u := fun u hu =>
    ContextSpmcQueue.go_pc_ne (ContextSpmcQueue.step_go hq) hu
  apply h.update hq hothers (h.performs hperforms) (fun u hu => hperforms.pc_ne hu) hcontexts
  · intro w _
    by_cases hw : w = v
    · subst hw
      rw [Function.update_self]
      exact hidle
    · rw [Function.update_of_ne hw]
      exact h.idle t w fun hu => hw (Option.some.inj (hu.symm.trans htarget))
  · intro w hw
    cases hw

theorem Inv.call (h : Inv suspend s) (hrun : s.Running) (htarget : s.target t = none)
    {a : ContextSpmcQueue.Action T (CtxId T)} (pc : ContextSpmcQueue.Pc (CtxId T))
    (hcall : Calls (s.threads.thread t).pc t v pc.call)
    (hgoto : ∀ q, ContextSpmcQueue.step v (s.rqueue v) a = some q → q = (s.rqueue v).goto t pc)
    (hs : s.call t v a = some s') : Inv suspend s' := by
  rcases call_cases hs with ⟨hdown, rfl⟩ | ⟨q, hq, rfl⟩
  · exact h.dangling hrun.1 hcall hdown
  · exact h.begin htarget hq (hgoto q hq) hcall

theorem Inv.enter (h : Inv suspend s) (hrun : s.Running) (htarget : s.target t = none)
    (hs : s.enter t v = some s') : Inv suspend s' := by
  obtain ⟨a, pc, hs, hcall, hgoto⟩ := enter_cases hs
  exact h.call hrun htarget pc hcall hgoto hs

theorem Inv.access (h : Inv suspend s) (hrun : s.Running) (htarget : s.target t = some v)
    (hs : s.access t v = some s') (hfew : Few s') : Inv suspend s' := by
  have hcall := h.calling t v htarget
  rcases access_cases hs with ⟨hdown, rfl⟩ | ⟨hthere, q, hq, hrqueue, hs⟩
  · exact h.dangling hrun.1 hcall hdown
  have hfewq : q.pushed.length < 2 ^ 64 := by
    have hlt := hfew v
    rw [hrqueue, Function.update_self] at hlt
    exact hlt
  have hinv := ContextSpmcQueue.inv_of_reachable (h.rqueue v)
    (Nat.lt_of_le_of_lt (ContextSpmcQueue.step_pushed hq) hfewq)
  have hinv' := hinv.step hq hfewq
  have hcases := ContextSpmcQueue.go_cases (ContextSpmcQueue.step_go hq)
  rcases hs with ⟨hnone, rfl⟩ | ⟨r, hr, rfl⟩
  · rw [hnone] at hcases
    rcases hcases with ⟨-, hsame, hpushed, hpopped⟩ | ⟨-, ⟨ctx, hr, -⟩ | ⟨ctx, hr, -⟩ | ⟨hr, -⟩⟩
    · refine h.within htarget hq hsame ?_
      rw [ContextSpmcQueue.State.contexts, hpushed, hpopped]
      rfl
    all_goals cases hr
  · rw [hr] at hcases
    rcases hcases with ⟨hnone, -⟩ | ⟨hidle, ⟨ctx, hr, hpush, hpushed, hpopped⟩ |
      ⟨ctx, hr, hpop, hpushed, hpopped⟩ | ⟨hr, hpop, hpushed, hpopped⟩⟩
    · cases hnone
    · obtain rfl := Option.some.inj hr
      rw [hpush] at hcall
      obtain ⟨hperforms, hrqueue⟩ := returned_pushed suspend hrun.1 hcall
      refine h.return htarget hq hidle hperforms ?_
      rw [hrqueue, h.contexts v, ContextSpmcQueue.contexts_push hinv.popped hpushed hpopped]
    · obtain rfl := Option.some.inj hr
      rw [hpop] at hcall
      have hcontexts := (h.contexts v).trans (ContextSpmcQueue.contexts_pop hinv'.popped hpushed hpopped)
      obtain ⟨hperforms, hrqueue⟩ := returned_popped suspend hrun.1 hcall hthere hcontexts
      exact h.return htarget hq hidle hperforms hrqueue
    · obtain rfl := Option.some.inj hr
      rw [hpop] at hcall
      obtain ⟨hperforms, hrqueue⟩ := returned_null suspend hrun.1 hcall hthere
      refine h.return htarget hq hidle hperforms ?_
      rw [hrqueue]
      apply h.same
      rw [ContextSpmcQueue.State.contexts, hpushed, hpopped]
      rfl

theorem Inv.step {a : Action T} (h : Inv suspend s) (hs : step suspend s a = some s') (hfew : Few s') :
    Inv suspend s' := by
  obtain ⟨hrun, hs⟩ := Option.ite_none_right_eq_some.mp hs
  cases a with
  | sched a =>
    obtain ⟨⟨htarget, hop⟩, hs⟩ := Option.ite_none_right_eq_some.mp hs
    obtain ⟨x, hx, rfl⟩ := Option.map_eq_some_iff.mp hs
    exact h.sched htarget hop hx
  | enter t v =>
    obtain ⟨htarget, hs⟩ := Option.ite_none_right_eq_some.mp hs
    exact h.enter hrun htarget hs
  | access t =>
    obtain ⟨v, htarget, hs⟩ := Option.bind_eq_some_iff.mp hs
    exact h.access hrun htarget hs hfew

theorem Inv.start : Inv suspend (start : State T) := by
  refine ⟨.start, fun _ => .start, fun _ => rfl, fun _ _ _ => rfl, ?_⟩
  intro t v hnone
  cases hnone

/-! ### The queues in a step -/

/-- The thread has popped the context. -/
def Taken (s : State T) (t : T) (c : CtxId T) : Prop :=
  s.target t = none ∧ ∃ r, (s.threads.thread t).pc = .attaching c r

/-- What a step does to the record of a queue. -/
def Changes (s s' : State T) (v : T) : Prop :=
  (s.rqueue v).pushed <+: (s'.rqueue v).pushed ∧
    ((s'.rqueue v).popped = (s.rqueue v).popped ∨
      ∃ c t, (s'.rqueue v).popped = (s.rqueue v).popped ++ [c] ∧ Taken s' t c)

omit [DecidableEq T] [Fintype T] in
theorem changes_same (hpushed : (s'.rqueue v).pushed = (s.rqueue v).pushed)
    (hpopped : (s'.rqueue v).popped = (s.rqueue v).popped) : Changes s s' v :=
  ⟨hpushed ▸ List.prefix_refl _, .inl hpopped⟩

omit [Fintype T] in
theorem changes_ne {w : T} {q : ContextSpmcQueue.State T (CtxId T)}
    (hrqueue : s'.rqueue = Function.update s.rqueue w q) (hv : v ≠ w) : Changes s s' v := by
  apply changes_same
  · rw [hrqueue, Function.update_of_ne hv]
  · rw [hrqueue, Function.update_of_ne hv]

omit [Fintype T] in
theorem call_changes {w : T} {a : ContextSpmcQueue.Action T (CtxId T)} {pc : ContextSpmcQueue.Pc (CtxId T)}
    (hgoto : ∀ q, ContextSpmcQueue.step w (s.rqueue w) a = some q → q = (s.rqueue w).goto t pc)
    (hs : s.call t w a = some s') (v : T) : Changes s s' v := by
  rcases call_cases hs with ⟨-, rfl⟩ | ⟨q, hq, rfl⟩
  · exact changes_same rfl rfl
  · by_cases hv : v = w
    · subst hv
      have hself : ((s.setRqueue v q).setTarget t (some v)).rqueue v = (s.rqueue v).goto t pc :=
        (Function.update_self _ _ _).trans (hgoto q hq)
      apply changes_same
      · rw [hself]
        rfl
      · rw [hself]
        rfl
    · exact changes_ne rfl hv

omit [Fintype T] in
theorem enter_changes {w : T} (hs : s.enter t w = some s') (v : T) : Changes s s' v := by
  obtain ⟨a, pc, hs, -, hgoto⟩ := enter_cases hs
  exact call_changes hgoto hs v

theorem access_changes {w : T} (hs : s.access t w = some s') (v : T) : Changes s s' v := by
  rcases access_cases hs with ⟨-, rfl⟩ | ⟨-, q, hq, hrqueue, hs⟩
  · exact changes_same rfl rfl
  · by_cases hv : v = w
    · subst hv
      have hself : s'.rqueue v = q := by rw [hrqueue, Function.update_self]
      rw [Changes, hself]
      rcases ContextSpmcQueue.go_cases (ContextSpmcQueue.step_go hq) with
        ⟨-, -, hpushed, hpopped⟩ | ⟨-, ⟨ctx, -, -, hpushed, hpopped⟩ |
          ⟨ctx, hreturns, -, hpushed, hpopped⟩ | ⟨-, -, hpushed, hpopped⟩⟩
      · exact ⟨hpushed ▸ List.prefix_refl _, .inl hpopped⟩
      · exact ⟨hpushed ▸ List.prefix_append _ _, .inl hpopped⟩
      · rcases hs with ⟨hnone, -⟩ | ⟨r, hr, rfl⟩
        · cases hnone.symm.trans hreturns
        · obtain rfl := Option.some.inj (hr.symm.trans hreturns)
          refine ⟨hpushed ▸ List.prefix_refl _, .inr ⟨ctx, t, hpopped, Function.update_self _ _ _, ?_⟩⟩
          exact ⟨readyCtx (s.threads.thread t).pc, by
            simp [returned, Threads.State.pop, Threads.State.setPc, Threads.State.setThread]⟩
      · exact ⟨hpushed ▸ List.prefix_refl _, .inl hpopped⟩
    · exact changes_ne hrqueue hv

theorem step_changes {a : Action T} (hs : step suspend s a = some s') (v : T) : Changes s s' v := by
  obtain ⟨-, hs⟩ := Option.ite_none_right_eq_some.mp hs
  cases a with
  | sched a =>
    obtain ⟨-, hs⟩ := Option.ite_none_right_eq_some.mp hs
    obtain ⟨x, -, rfl⟩ := Option.map_eq_some_iff.mp hs
    exact changes_same rfl rfl
  | enter t w =>
    obtain ⟨-, hs⟩ := Option.ite_none_right_eq_some.mp hs
    exact enter_changes hs v
  | access t =>
    obtain ⟨w, -, hs⟩ := Option.bind_eq_some_iff.mp hs
    exact access_changes hs v

theorem exec_pushed {as : List (Action T)} (hrun : (machine T suspend).exec s as = some s') (v : T) :
    (s.rqueue v).pushed <+: (s'.rqueue v).pushed := by
  induction as generalizing s with
  | nil =>
    cases hrun
    exact List.prefix_refl _
  | cons a as ih =>
    obtain ⟨u, hu, hrun⟩ := Machine.exec_cons.mp hrun
    exact (step_changes hu v).1.trans (ih hrun)

theorem few_of_exec {as : List (Action T)} (hrun : (machine T suspend).exec s as = some s') (hfew : Few s') :
    Few s := fun v => Nat.lt_of_le_of_lt (exec_pushed hrun v).length_le (hfew v)

theorem inv_of_reachable (h : (machine T suspend).Reachable s) : Few s → Inv suspend s := by
  refine h.invariant (P := fun s => Few s → Inv suspend s) (fun _ => Inv.start) ?_
  intro s a s' hinv hs hfew
  have hbefore : Few s := fun v => Nat.lt_of_le_of_lt (step_changes hs v).1.length_le (hfew v)
  exact (hinv hbefore).step hs hfew

/-- To the schedulers the calls of their queues happen at once. -/
theorem calls_at_once (h : (machine T suspend).Reachable s) (hfew : Few s) :
    (Threads.machine T .workStealing suspend).Reachable s.threads ∧
      ∀ v, s.threads.rqueue (some v) = (s.rqueue v).contexts :=
  ⟨(inv_of_reachable h hfew).threads, (inv_of_reachable h hfew).contexts⟩

/-! ### Whoever pops a context runs it next -/

theorem returned_pc_ne (x : Threads.State T) (v : T) (r : Result (CtxId T)) {u : T} (hu : u ≠ t) :
    ((returned x t v r).thread u).pc = (x.thread u).pc := by
  cases r with
  | pushed =>
    rw [returned]
    cases hgo : x.go .workStealing t with
    | none => rfl
    | some y => exact Threads.go_pc_ne x hu hgo
  | popped ctx => exact Threads.pop_pc_ne x _ _ _ _ hu
  | null =>
    rw [returned]
    split
    · exact Threads.pickLocal_pc_ne x _ hu
    · exact Threads.pickNull_pc_ne x hu

/-- A step leaves the other threads where they are. -/
theorem step_others {a : Action T} (hs : step suspend s a = some s') (ht : t ≠ a.thread) :
    s'.target t = s.target t ∧ (s'.threads.thread t).pc = (s.threads.thread t).pc := by
  obtain ⟨-, hs⟩ := Option.ite_none_right_eq_some.mp hs
  cases a with
  | sched a =>
    obtain ⟨-, hs⟩ := Option.ite_none_right_eq_some.mp hs
    obtain ⟨x, hx, rfl⟩ := Option.map_eq_some_iff.mp hs
    exact ⟨rfl, Threads.step_pc_ne hx ht⟩
  | enter u v =>
    obtain ⟨-, hs⟩ := Option.ite_none_right_eq_some.mp hs
    obtain ⟨a, pc, hs, -, -⟩ := enter_cases hs
    rcases call_cases hs with ⟨-, rfl⟩ | ⟨q, -, rfl⟩
    · exact ⟨rfl, rfl⟩
    · exact ⟨Function.update_of_ne ht _ _, rfl⟩
  | access u =>
    obtain ⟨v, -, hs⟩ := Option.bind_eq_some_iff.mp hs
    rcases access_cases hs with ⟨-, rfl⟩ | ⟨-, q, -, -, ⟨-, rfl⟩ | ⟨r, -, rfl⟩⟩
    · exact ⟨rfl, rfl⟩
    · exact ⟨rfl, rfl⟩
    · exact ⟨Function.update_of_ne ht _ _, returned_pc_ne s.threads v r ht⟩

theorem sched_attaching {x y : Threads.State T} {a : Threads.Action T} {r : Option (CtxId T)}
    (hpc : (x.thread a.thread).pc = .attaching c r) (hs : Threads.step .workStealing suspend x a = some y) :
    a = .go a.thread := by
  obtain ⟨⟨-, henabled⟩, -⟩ := Option.ite_none_right_eq_some.mp hs |>.imp_right Option.some.inj
  cases a with
  | go t => rfl
  | _ =>
    simp only [Threads.Action.thread] at hpc
    simp [Threads.enabled, Threads.State.InUser, Threads.State.mayReturn, ThreadPc.picks, ThreadPc.steals,
      hpc] at henabled

theorem Taken.other (h : Taken s t c) {a : Action T} (hs : step suspend s a = some s') (ha : a.thread ≠ t) :
    Taken s' t c := by
  obtain ⟨htarget, hpc⟩ := step_others hs (Ne.symm ha)
  rw [Taken, htarget, hpc]
  exact h

theorem Taken.own (h : Taken s t c) {a : Action T} (hs : step suspend s a = some s') (ha : a.thread = t) :
    (s'.threads.thread t).active = c := by
  obtain ⟨htarget, r, hpc⟩ := h
  obtain ⟨-, hs⟩ := Option.ite_none_right_eq_some.mp hs
  subst ha
  cases a with
  | sched a =>
    obtain ⟨-, hs⟩ := Option.ite_none_right_eq_some.mp hs
    obtain ⟨x, hx, rfl⟩ := Option.map_eq_some_iff.mp hs
    have hgo := sched_attaching hpc hx
    rw [hgo] at hx
    exact (Threads.taken_of_pc hpc).2 x hx
  | enter t v =>
    have hpc : (s.threads.thread t).pc = .attaching c r := hpc
    simp [enabledStep, State.enter, hpc] at hs
  | access t =>
    have htarget : s.target t = none := htarget
    simp [enabledStep, htarget] at hs

theorem Taken.goes (h : Taken s t c) (hrun : s.Running) :
    ∃ s', step suspend s (.sched (.go t)) = some s' := by
  obtain ⟨htarget, r, hpc⟩ := h
  have hop : operates s.threads (.go t) = false := by simp [operates, hpc]
  have hgo : ∃ x, Threads.step .workStealing suspend s.threads (.go t) = some x := by
    refine ⟨_, if_pos ⟨hrun.1, ?_⟩⟩
    simp [Threads.enabled, Threads.State.go, hpc]
  obtain ⟨x, hx⟩ := hgo
  refine ⟨{ s with threads := x }, (if_pos hrun).trans ((if_pos ⟨htarget, hop⟩).trans ?_)⟩
  rw [hx]
  rfl

/-- Whatever the other threads do meanwhile, the next step of the thread is to run the context; and it takes one
unless the run has ended with a fault. -/
def RunsNext (suspend : Bool) (s : State T) (t : T) (c : CtxId T) : Prop :=
  ∀ as s', (machine T suspend).exec s as = some s' → (∀ a ∈ as, a.thread ≠ t) →
    (s'.Running → ∃ a u, a.thread = t ∧ step suspend s' a = some u) ∧
      ∀ a u, a.thread = t → step suspend s' a = some u → (u.threads.thread t).active = c

theorem Taken.runsNext (h : Taken s t c) : RunsNext suspend s t c := by
  intro as
  induction as generalizing s with
  | nil =>
    intro s' hrun _
    cases hrun
    refine ⟨fun hrun => ?_, fun a u ha hs => h.own hs ha⟩
    obtain ⟨u, hu⟩ := h.goes hrun
    exact ⟨.sched (.go t), u, rfl, hu⟩
  | cons a as ih =>
    intro s' hrun hothers
    obtain ⟨u, hu, hrun⟩ := Machine.exec_cons.mp hrun
    apply ih (h.other hu (hothers a List.mem_cons_self)) s' hrun
    intro b hb
    exact hothers b (List.mem_cons_of_mem a hb)

/-! ### No worker starves -/

/-- A worker that has been pushed is popped in its turn: the pops before it, by whichever threads, are those of
the workers pushed before it. The thread that pops it runs it next. -/
theorem stealing_queue_fair (h : (machine T suspend).Reachable s) {n : Nat}
    (hc : (s.rqueue v).pushed[n]? = some c) (hwaits : (s.rqueue v).popped.length ≤ n) {as : List (Action T)}
    (hrun : (machine T suspend).exec s as = some s') (hfew : Few s')
    (hpops : n < (s'.rqueue v).popped.length) :
    ∃ as₁ as₂ u t, as = as₁ ++ as₂ ∧ (machine T suspend).exec s as₁ = some u ∧
      (u.rqueue v).popped = (s.rqueue v).pushed.take (n + 1) ∧ RunsNext suspend u t c := by
  obtain ⟨as₁, a, as₂, u, w, rfl, hu, hw, hrest, hlow, hhigh⟩ :=
    Machine.exists_passing (f := fun s => (s.rqueue v).popped.length) hrun hwaits hpops
  have hexec : (machine T suspend).exec s (as₁ ++ [a]) = some w :=
    Machine.exec_append.mpr ⟨u, hu, Machine.exec_cons.mpr ⟨w, hw, rfl⟩⟩
  have hinv := inv_of_reachable (h.exec hexec) (few_of_exec hrest hfew)
  have hprefix := (ContextSpmcQueue.inv_of_reachable (hinv.rqueue v) (few_of_exec hrest hfew v)).popped
  obtain ⟨later, hlater⟩ := exec_pushed hexec v
  have hlt := (List.getElem?_eq_some_iff.mp hc).1
  rcases (step_changes hw v).2 with hsame | ⟨d, t, hpopped, htaken⟩
  · rw [hsame] at hhigh
    exact absurd hhigh (Nat.not_lt.mpr hlow)
  · have hlength : (w.rqueue v).popped.length = (u.rqueue v).popped.length + 1 := by
      rw [hpopped, List.length_append]
      rfl
    have hn : (u.rqueue v).popped.length = n := by omega
    have htake : (w.rqueue v).popped = (s.rqueue v).pushed.take (n + 1) := by
      rw [List.prefix_iff_eq_take.mp hprefix, hlength, hn, ← hlater, List.take_append_of_le_length hlt]
    have hd : some d = some c := by
      calc some d = (w.rqueue v).popped[n]? := by rw [hpopped, ← hn, List.getElem?_concat_length]
        _ = some c := by rw [htake, List.getElem?_take_of_succ, hc]
    obtain rfl := Option.some.inj hd
    exact ⟨as₁ ++ [a], as₂, w, t, by rw [List.append_assoc]; rfl, hexec, htake, htaken.runsNext⟩

/-- One thread creates two fibers. -/
def creates : List (Action Bool) :=
  .sched (.create true .post) :: .enter true true :: List.replicate 6 (.access true) ++
    .sched (.create true .post) :: .enter true true :: List.replicate 6 (.access true)

/-- The other has nothing to run, and steals one of them while the first runs the other. -/
def steals : List (Action Bool) :=
  .sched (.waitUntil false 7) :: .enter false false :: List.replicate 2 (.access false) ++
    .sched (.dispatch false 0) :: .sched (.go false) :: .enter false false :: List.replicate 2 (.access false) ++
    .sched (.yield true) :: .enter true true :: List.replicate 5 (.access true) ++
    .enter false true :: List.replicate 2 (.access false) ++
    .sched (.go true) :: List.replicate 3 (.access false)

theorem stealing_queue_fair_stolen : ∃ s : State Bool, (s.rqueue true).pushed = [.worker 0, .worker 1] ∧
    (s.rqueue true).popped = [] ∧
    ∃ as₁ as₂ u t, steals = as₁ ++ as₂ ∧ (machine Bool true).exec s as₁ = some u ∧
      (u.rqueue true).popped = [.worker 0, .worker 1] ∧ RunsNext true u t (.worker 1) := by
  have hfirst : ((machine Bool true).exec start creates).map
      (fun s => ((s.rqueue true).pushed, (s.rqueue true).popped)) = some ([.worker 0, .worker 1], []) := by
    decide +kernel
  have hsecond : ((machine Bool true).exec start (creates ++ steals)).map
      (fun s => ((s.rqueue true).popped.length, (s.rqueue true).pushed.length,
        (s.rqueue false).pushed.length)) = some (2, 2, 0) := by
    decide +kernel
  obtain ⟨s, hs, hqueue⟩ := Option.map_eq_some_iff.mp hfirst
  obtain ⟨hpushed, hpopped⟩ := Prod.mk.inj hqueue
  obtain ⟨s', hexec, hlengths⟩ := Option.map_eq_some_iff.mp hsecond
  obtain ⟨hpops, hlengths⟩ := Prod.mk.inj hlengths
  obtain ⟨htrue, hfalse⟩ := Prod.mk.inj hlengths
  have hs' : (machine Bool true).exec s steals = some s' := by
    obtain ⟨u, hu, hrest⟩ := Machine.exec_append.mp hexec
    obtain rfl : s = u := Option.some.inj (hs.symm.trans hu)
    exact hrest
  have hfew : Few s' := by
    intro v
    cases v with
    | true =>
      rw [htrue]
      decide
    | false =>
      rw [hfalse]
      decide
  have hc : (s.rqueue true).pushed[1]? = some (.worker 1) := by
    rw [hpushed]
    rfl
  have hwaits : (s.rqueue true).popped.length ≤ 1 := by
    rw [hpopped]
    decide
  have hcount : 1 < (s'.rqueue true).popped.length := by
    rw [hpops]
    decide
  obtain ⟨as₁, as₂, u, t, hsplit, hu, htake, hruns⟩ :=
    stealing_queue_fair (Machine.reachable_of_exec hs) hc hwaits hs' hfew hcount
  rw [hpushed] at htake
  exact ⟨s, hpushed, hpopped, as₁, as₂, u, t, hsplit, hu, htake, hruns⟩

end Dumbo.Fiber.StealingQueues
