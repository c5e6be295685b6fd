import Dumbo.Fiber.ContextSpmcQueueInvariant

/-!
# The work-stealing queue is a queue
-/

namespace Dumbo.Fiber.ContextSpmcQueue

open Transition

variable {Θ C : Type*}

structure Safe (s : State Θ C) : Prop where
  /-- the results of `pop` are the contexts that have been pushed first, in this order -/
  popped : s.popped <+: s.pushed
  once : s.pushed.Nodup → s.popped.Nodup
  /-- `pop` has found the queue empty, or another `pop` has come before it -/
  nulls : ∀ r ∈ s.nulls, r.bottom ≤ r.top ∨ r.top < r.popped
  /-- another `pop` has come before one that reads a slot without a context -/
  fault : s.fault = true → ∃ t top array popped pushed,
    s.pc t = .popSlot top array popped pushed ∧ popped < s.popped.length

variable [DecidableEq Θ] {s : State Θ C} {owner t : Θ}

/-- However the steps of the owner and the thieves interleave, and however often the array grows. -/
theorem context_spmc_queue_safe (h : (machine C owner).Reachable s) (hlt : s.pushed.length < 2 ^ 64) :
    Safe s := by
  have hinv := inv_of_reachable h hlt
  exact ⟨hinv.popped, fun hnodup => hnodup.sublist hinv.popped.sublist, hinv.nulls, hinv.fault⟩

/-! ### The slots that are read -/

/-- In a step, a `pop` reads a slot without a context exactly where none has been stored. -/
theorem Inv.step_fault {a : Action Θ C} {u : State Θ C} (h : Inv owner s)
    (hs : ContextSpmcQueue.step owner s a = some u) : u.fault = false ↔ ReadsStored s a := by
  rw [ContextSpmcQueue.step] at hs
  split_ifs at hs with hfault
  have hrun : s.fault = false := Bool.eq_false_iff.mpr hfault
  have hother : u.fault = false → (∀ t top array popped pushed, a = .go t →
      s.pc t ≠ .popSlot top array popped pushed) → (u.fault = false ↔ ReadsStored s a) := by
    intro hu hnot
    refine ⟨fun _ t top array popped pushed ha hpc => ?_, fun _ => hu⟩
    exact absurd hpc (hnot t top array popped pushed ha)
  cases a with
  | push ctx =>
    refine hother ?_ (by simp)
    rw [enabledStep] at hs
    split at hs
    · obtain rfl := Option.some.inj hs
      exact hrun
    · exact absurd hs (by simp)
  | pop t =>
    refine hother ?_ (by simp)
    rw [enabledStep] at hs
    split at hs
    · obtain rfl := Option.some.inj hs
      exact hrun
    · exact absurd hs (by simp)
  | go t =>
    rw [enabledStep, State.go] at hs
    split at hs
    case h_1 => exact absurd hs (by simp)
    case h_11 top array popped pushed hpc =>
      have hthread := h.thread t
      rw [hpc] at hthread
      have hfilled := h.filled array hthread.2.1 top
      have hreads : ReadsStored s (.go t) ↔ (s.arrays array).Stored top := by
        constructor
        · intro hr
          exact hr t top array popped pushed rfl hpc
        · rintro hr t' top' array' popped' pushed' ht hpc'
          obtain rfl : t = t' := Action.go.inj ht
          have he := hpc.symm.trans hpc'
          rw [Pc.popSlot.injEq] at he
          obtain ⟨rfl, rfl, rfl, rfl⟩ := he
          exact hr
      rw [hreads, ← hfilled]
      split at hs
      case h_1 ctx hctx =>
        obtain rfl := Option.some.inj hs
        rw [hctx]
        exact ⟨fun _ => rfl, fun _ => hrun⟩
      case h_2 hnone =>
        obtain rfl := Option.some.inj hs
        rw [hnone]
        exact ⟨fun hf => absurd hf (by simp), fun hf => absurd hf (by simp)⟩
    case h_5 hpc | h_9 hpc | h_12 hpc =>
      refine hother ?_ ?_
      · split_ifs at hs
        all_goals
          obtain rfl := Option.some.inj hs
          exact hrun
      · rintro t' top array popped pushed ht
        obtain rfl : t = t' := Action.go.inj ht
        rw [hpc]
        simp
    all_goals
      rename_i hpc
      obtain rfl := Option.some.inj hs
      refine hother hrun ?_
      rintro t' top array popped pushed ht
      obtain rfl : t = t' := Action.go.inj ht
      rw [hpc]
      simp

/-- The runs whose reads find what has been stored are those without a fault. -/
theorem readsStored_of_reachable (h : (machine C owner).Reachable s) (hlt : s.pushed.length < 2 ^ 64)
    (hrun : s.fault = false) : (machine C owner).ReachableWith ReadsStored s := by
  induction h with
  | start => exact .start
  | @step s a u hs _ hstep ih =>
    have hlt' := Nat.lt_of_le_of_lt (step_pushed hstep) hlt
    have hbefore : s.fault = false := by
      by_contra hfault
      rw [show (machine C owner).step s a = step owner s a from rfl, step,
        if_pos (by simpa using hfault)] at hstep
      exact absurd hstep (by simp)
    exact .step (ih hlt' hbefore) (((inv_of_reachable hs hlt').step_fault hstep).mp hrun) hstep

/-- In the runs in which every `pop` finds a slot that has been stored in the array it has loaded, the queue
is safe and no `pop` reads a null pointer; and the step that does not find one reads a null pointer. -/
theorem context_spmc_queue_stored (h : (machine C owner).ReachableWith ReadsStored s)
    (hlt : s.pushed.length < 2 ^ 64) : Safe s ∧ s.fault = false ∧
      ∀ a u, step owner s a = some u → (u.fault = false ↔ ReadsStored s a) := by
  have hreach := h.reachable
  refine ⟨context_spmc_queue_safe hreach hlt, ?_, fun a u hs => (inv_of_reachable hreach hlt).step_fault hs⟩
  cases h with
  | start => rfl
  | step hs hreads hstep =>
    have hlt' := Nat.lt_of_le_of_lt (step_pushed hstep) hlt
    exact ((inv_of_reachable hs.reachable hlt').step_fault hstep).mpr hreads

/-- A thief overtakes another, and both have read slots of the first array. -/
theorem context_spmc_queue_stored_two : ∃ s : State Nat Nat, s.popped = [5] ∧ s.nulls = [⟨0, 2, 1⟩] ∧
    Safe s ∧ s.fault = false := by
  have hrun : ∃ s : State Nat Nat, (machine Nat 0).exec create
      [.push 5, .go 0, .go 0, .go 0, .go 0, .go 0, .go 0, .push 7, .go 0, .go 0, .go 0, .go 0, .go 0, .go 0,
        .pop 1, .pop 2, .go 1, .go 2, .go 2, .go 1, .go 1, .go 2, .go 2, .go 1, .go 2, .go 1] = some s ∧
        s.pushed = [5, 7] ∧ s.popped = [5] ∧ s.nulls = [⟨0, 2, 1⟩] ∧ s.fault = false :=
    ⟨_, rfl, rfl, rfl, rfl, rfl⟩
  obtain ⟨s, hexec, hpushed, hpopped, hnulls, hfault⟩ := hrun
  have hlt : s.pushed.length < 2 ^ 64 := by
    rw [hpushed]
    decide
  have hsafe := context_spmc_queue_stored
    (readsStored_of_reachable (Machine.reachable_of_exec hexec) hlt hfault) hlt
  exact ⟨s, hpopped, hnulls, hsafe.1, hsafe.2.1⟩

/-! ### All the way round -/

section Laps

/-- A call of the owner, without the steps of others. -/
def soloPush (owner : Θ) (ctx : C) : List (Action Θ C) :=
  [.push ctx, .go owner, .go owner, .go owner, .go owner, .go owner, .go owner]

def soloPop (t : Θ) : List (Action Θ C) := [.pop t, .go t, .go t, .go t, .go t, .go t]

def State.push (s : State Θ C) (ctx : C) : State Θ C :=
  { s.setArray s.array ((s.arrays s.array).push s.bottom (some ctx)) with
    bottom := (s.bottom + 1) % 2 ^ 64, pushed := s.pushed ++ [ctx] }

def State.pop (s : State Θ C) (ctx : C) : State Θ C :=
  { s with top := (s.top + 1) % 2 ^ 64, popped := s.popped ++ [ctx] }

theorem update_idle (hpc : s.pc t = .idle) : Function.update s.pc t .idle = s.pc := by
  rw [← hpc, Function.update_eq_self]

theorem exec_soloPush (ctx : C) (hrun : s.fault = false) (hpc : s.pc owner = .idle)
    (hroom : ¬ (s.arrays s.array).size - 1 < Array.distance s.bottom s.top) :
    (machine C owner).exec s (soloPush owner ctx) = some (s.push ctx) := by
  simp [soloPush, Machine.exec, machine, step, enabledStep, State.go, State.goto, hrun, hpc, hroom,
    State.setArray, State.push, update_idle hpc]

theorem exec_soloPop {ctx : C} (hrun : s.fault = false) (hpc : s.pc t = .idle) (hlt : s.top < s.bottom)
    (hctx : (s.arrays s.array).pop s.top = some ctx) :
    (machine C owner).exec s (soloPop t) = some (s.pop ctx) := by
  simp [soloPop, Machine.exec, machine, step, enabledStep, State.go, State.goto, hrun, hpc, hlt, hctx,
    State.pop, update_idle hpc]

theorem exec_pop_null (hrun : s.fault = false) (hpc : s.pc t = .idle) (hle : ¬ s.top < s.bottom) :
    (machine C owner).exec s [.pop t, .go t, .go t] =
      some { s with nulls := s.nulls ++ [NullPop.mk s.popped.length s.pushed.length s.popped.length] } := by
  simp [Machine.exec, machine, step, enabledStep, State.go, State.goto, State.returnNull, hrun, hpc, hle,
    update_idle hpc]

/-- The owner has pushed and popped `n` contexts. -/
structure Lap (owner : Θ) (n : Nat) (s : State Θ C) : Prop where
  reachable : (machine C owner).Reachable s
  fault : s.fault = false
  idle : s.pc owner = .idle
  size : (s.arrays s.array).size = 1024
  top : s.top = n
  bottom : s.bottom = n
  pushed : s.pushed.length = n
  popped : s.popped.length = n

theorem Lap.push {n : Nat} (h : Lap owner n s) (hn : n < 2 ^ 64) (ctx : C) :
    (machine C owner).Reachable (s.push ctx) := by
  refine h.reachable.exec (exec_soloPush ctx h.fault h.idle ?_)
  rw [h.size, h.bottom, h.top, Array.distance_eq (Nat.le_refl n) hn, Nat.sub_self]
  exact Nat.not_lt_zero _

theorem Lap.succ {n : Nat} (h : Lap owner n s) (hn : n + 1 < 2 ^ 64) (ctx : C) :
    Lap owner (n + 1) ((s.push ctx).pop ctx) := by
  have hbottom : (s.push ctx).bottom = n + 1 := by
    show (s.bottom + 1) % 2 ^ 64 = n + 1
    rw [h.bottom, Nat.mod_eq_of_lt hn]
  have harray : (s.push ctx).arrays (s.push ctx).array = (s.arrays s.array).push s.bottom (some ctx) :=
    Function.update_self _ _ _
  have htop : (s.push ctx).top = n := h.top
  have hctx : ((s.push ctx).arrays (s.push ctx).array).pop (s.push ctx).top = some ctx := by
    rw [harray, htop, h.bottom]
    exact Array.push_pop_self _ _ _
  refine ⟨(h.push (Nat.lt_of_succ_lt hn) ctx).exec (exec_soloPop h.fault h.idle ?_ hctx), h.fault, h.idle,
    ?_, ?_, hbottom, ?_, ?_⟩
  · rw [hbottom, htop]
    exact Nat.lt_succ_self n
  · exact (congrArg Array.size harray).trans h.size
  · show (s.top + 1) % 2 ^ 64 = n + 1
    rw [h.top, Nat.mod_eq_of_lt hn]
  · show (s.pushed ++ [ctx]).length = n + 1
    rw [List.length_append, h.pushed]
    rfl
  · show (s.popped ++ [ctx]).length = n + 1
    rw [List.length_append, h.popped]
    rfl

theorem exists_lap (ctx : C) (owner : Θ) (n : Nat) (hn : n < 2 ^ 64) : ∃ s : State Θ C, Lap owner n s := by
  induction n with
  | zero => exact ⟨create, .start, rfl, rfl, rfl, rfl, rfl, rfl, rfl⟩
  | succ n ih =>
    obtain ⟨s, hs⟩ := ih (Nat.lt_of_succ_lt hn)
    exact ⟨_, hs.succ hn ctx⟩

/-- Behind `2 ^ 64` pushes `bottom_` is zero again: `pop` returns null, though a context is in the queue
and no other `pop` has come between. -/
theorem context_spmc_queue_wraps : ∃ s : State Unit Nat, (machine Nat ()).Reachable s ∧
    ∃ r ∈ s.nulls, r.top < r.bottom ∧ r.popped = r.top := by
  obtain ⟨s, hs⟩ := exists_lap 0 () (2 ^ 64 - 1) (by decide)
  have hbottom : (s.push 0).bottom = 0 := by
    show (s.bottom + 1) % 2 ^ 64 = 0
    rw [hs.bottom, Nat.sub_add_cancel (by decide), Nat.mod_self]
  have hempty : ¬ (s.push 0).top < (s.push 0).bottom := by
    rw [hbottom]
    exact Nat.not_lt_zero _
  refine ⟨_, (hs.push (by decide) 0).exec (exec_pop_null hs.fault hs.idle hempty), _,
    List.mem_append_right _ (List.mem_singleton_self _), ?_, rfl⟩
  show s.popped.length < (s.pushed ++ [0]).length
  rw [List.length_append, hs.popped, hs.pushed]
  exact Nat.lt_succ_self _

end Laps

/-! ### A slot without a context -/

section Growth

/-- The thief has loaded `top_` and `bottom_` when the only context was in the queue; the owner has popped
this and pushed `n` others. -/
structure Overtaken (n : Nat) (s : State Bool Nat) : Prop where
  reachable : (machine Nat false).Reachable s
  fault : s.fault = false
  owner : s.pc false = .idle
  thief : s.pc true = .popArray 0 0 1
  array : s.array = 0
  size : (s.arrays 0).size = 1024
  top : s.top = 1
  bottom : s.bottom = n + 1
  pushed : s.pushed.length = n + 1

theorem Overtaken.zero : ∃ s, Overtaken 0 s := by
  have hrun : ∃ s : State Bool Nat, (machine Nat false).exec create
      (soloPush false 0 ++ [.pop true, .go true, .go true] ++ soloPop false) = some s ∧
        s.fault = false ∧ s.pc false = .idle ∧ s.pc true = .popArray 0 0 1 ∧ s.array = 0 ∧
        (s.arrays 0).size = 1024 ∧ s.top = 1 ∧ s.bottom = 1 ∧ s.pushed.length = 1 :=
    ⟨_, rfl, rfl, rfl, rfl, rfl, rfl, rfl, rfl, rfl⟩
  obtain ⟨s, hexec, hfault, howner, hthief, harray, hsize, htop, hbottom, hpushed⟩ := hrun
  exact ⟨s, Machine.reachable_of_exec hexec, hfault, howner, hthief, harray, hsize, htop, hbottom, hpushed⟩

theorem Overtaken.distance {n : Nat} {s : State Bool Nat} (h : Overtaken n s) (hn : n < 1025) :
    Array.distance s.bottom s.top = n := by
  rw [h.bottom, h.top, Array.distance_eq (by omega) (by omega), Nat.add_sub_cancel]

theorem Overtaken.succ {n : Nat} {s : State Bool Nat} (h : Overtaken n s) (hn : n < 1024) :
    Overtaken (n + 1) (s.push 0) := by
  have hexec : (machine Nat false).exec s (soloPush false 0) = some (s.push 0) := by
    refine exec_soloPush 0 h.fault h.owner ?_
    rw [h.array, h.size, h.distance (by omega)]
    omega
  refine ⟨h.reachable.exec hexec, h.fault, h.owner, h.thief, h.array, ?_, h.top, ?_, ?_⟩
  · show (Function.update s.arrays s.array _ 0).size = 1024
    rw [h.array, Function.update_self]
    exact h.size
  · show (s.bottom + 1) % 2 ^ 64 = n + 1 + 1
    rw [h.bottom, Nat.mod_eq_of_lt (by omega)]
  · show (s.pushed ++ [0]).length = n + 1 + 1
    rw [List.length_append, h.pushed]
    rfl

theorem exists_overtaken (n : Nat) (hn : n ≤ 1024) : ∃ s, Overtaken n s := by
  induction n with
  | zero => exact Overtaken.zero
  | succ n ih =>
    obtain ⟨s, hs⟩ := ih (Nat.le_of_succ_le hn)
    exact ⟨_, hs.succ hn⟩

theorem goto_goto (s : State Θ C) (t : Θ) (pc pc' : Pc C) : (s.goto t pc).goto t pc' = s.goto t pc' := by
  rw [State.goto, State.goto, State.goto, Function.update_idem]

theorem reachable_go {u : State Θ C} (h : (machine C owner).Reachable s) (hrun : s.fault = false)
    (hs : s.go t = some u) : (machine C owner).Reachable u := by
  refine .step (a := .go t) h trivial ?_
  show (if s.fault then none else s.go t) = some u
  rw [hrun]
  exact hs

theorem reachable_grow (h : (machine C owner).Reachable s) (hrun : s.fault = false)
    (hidle : s.pc owner = .idle) (ctx : C)
    (hfull : (s.arrays s.array).size - 1 < Array.distance s.bottom s.top) :
    (machine C owner).Reachable
      ((s.grow s.bottom s.top s.array).goto owner (.pushSlot ctx s.bottom (s.array + 1))) := by
  have hstart : (machine C owner).Reachable (s.goto owner (.pushBottom ctx)) := by
    refine .step (a := .push ctx) h trivial ?_
    show (if s.fault then none else enabledStep owner s (.push ctx)) = _
    rw [hrun, enabledStep, hidle]
    rfl
  have hnext : ∀ pc pc', (machine C owner).Reachable (s.goto owner pc) →
      (s.goto owner pc).go owner = some ((s.goto owner pc).goto owner pc') →
        (machine C owner).Reachable (s.goto owner pc') := by
    intro pc pc' hr hs
    rw [goto_goto] at hs
    exact reachable_go hr hrun hs
  have hbottom := hnext _ (.pushTop ctx s.bottom) hstart (by rw [State.go, goto_pc]; rfl)
  have htop := hnext _ (.pushArray ctx s.bottom s.top) hbottom (by rw [State.go, goto_pc]; rfl)
  have harray := hnext _ (.pushGrow ctx s.bottom s.top s.array) htop (by rw [State.go, goto_pc]; rfl)
  refine reachable_go (t := owner) harray hrun ?_
  rw [State.go, goto_pc]
  refine (if_pos hfull).trans (congrArg some ?_)
  exact goto_goto (s.grow s.bottom s.top s.array) owner _ _

/-- Only the contexts of the queue have been copied, and the thief asks a null pointer for its type. -/
theorem pop_reads_null : ∃ s : State Bool Nat, (machine Nat false).Reachable s ∧ s.pushed.length = 1025 ∧
    s.array = 1 ∧ s.pc true = .popSlot 0 1 0 1 ∧ (s.arrays 1).pop 0 = none ∧ s.fault = true := by
  obtain ⟨s, hs⟩ := exists_overtaken 1024 (Nat.le_refl _)
  have hdistance := hs.distance (by decide)
  have hfull : (s.arrays s.array).size - 1 < Array.distance s.bottom s.top := by
    rw [hs.array, hs.size, hdistance]
    decide
  have hnull : ((s.arrays s.array).resize s.bottom s.top).pop 0 = none := by
    rw [Array.resize, hdistance, hs.top, hs.array]
    refine Array.copy_pop_of_ne _ _ (by decide) fun j hj hlt => ?_
    show 0 % (2 * (s.arrays 0).size) ≠ j % (2 * (s.arrays 0).size)
    rw [hs.size]
    omega
  have hgrown := reachable_grow hs.reachable hs.fault hs.owner 0 hfull
  obtain ⟨u, hu⟩ : ∃ u, u = (s.grow s.bottom s.top s.array).goto false
      (.pushSlot 0 s.bottom (s.array + 1)) := ⟨_, rfl⟩
  have hthief : u.pc true = .popArray 0 0 1 := by
    rw [hu]
    exact hs.thief
  have hslot : (u.arrays u.array).pop 0 = none := by
    have hnew : u.arrays u.array = (s.arrays s.array).resize s.bottom s.top := by
      rw [hu]
      exact Function.update_self _ _ _
    rw [hnew, hnull]
  have hrun : u.fault = false := by
    rw [hu]
    exact hs.fault
  rw [← hu] at hgrown
  have hloaded : (machine Nat false).Reachable (u.goto true (.popSlot 0 u.array 0 1)) := by
    refine reachable_go (t := true) hgrown hrun ?_
    rw [State.go, hthief]
  have harray : u.array = 1 := by
    rw [hu]
    exact congrArg (· + 1) hs.array
  have hpushed : u.pushed.length = 1025 := by
    rw [hu]
    exact hs.pushed
  refine ⟨{ u.goto true (.popSlot 0 u.array 0 1) with fault := true },
    reachable_go (t := true) hloaded hrun ?_, hpushed, harray, ?_, harray ▸ hslot, rfl⟩
  · have hread : ((u.goto true (.popSlot 0 u.array 0 1)).arrays u.array).pop 0 = none := hslot
    simp only [State.go, goto_pc, hread]
  · show (u.goto true (.popSlot 0 u.array 0 1)).pc true = .popSlot 0 1 0 1
    rw [goto_pc, harray]

end Growth

end Dumbo.Fiber.ContextSpmcQueue
