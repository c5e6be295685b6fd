import Dumbo.Fiber.ContextSpmcQueueInvariant

/-!
# The calls of a work-stealing queue

What the last access of a call returns, and what it makes of the contexts in the queue: `push` appends one, `pop`
takes the first or returns null.
-/

namespace Dumbo.Fiber.ContextSpmcQueue

open Transition

variable {Θ C : Type*}

inductive Call (C : Type*)
  | push (ctx : C)
  | pop
  deriving DecidableEq, Repr

/-- The call that a thread is in. -/
def Pc.call : Pc C → Option (Call C)
  | .idle => none
  | .pushBottom ctx | .pushTop ctx _ | .pushArray ctx _ _ | .pushGrow ctx _ _ _ | .pushSlot ctx _ _
  | .pushStore ctx _ => some (.push ctx)
  | .popTop | .popBottom _ _ | .popArray _ _ _ | .popSlot _ _ _ _ | .popExchange _ _ _ _ => some .pop

inductive Result (C : Type*)
  | pushed
  | popped (ctx : C)
  | null
  deriving DecidableEq, Repr

/-- What the call of a thread returns with its next access, if this is the last. -/
def State.returns (s : State Θ C) (t : Θ) : Option (Result C) :=
  match s.pc t with
  | .pushStore _ _ => some .pushed
  | .popBottom top _ => if top < s.bottom then none else some .null
  | .popExchange top ctx _ _ => some (if s.top = top then .popped ctx else .null)
  | _ => none

/-- The contexts in the queue, in the order of `push`. -/
def State.contexts (s : State Θ C) : List C := s.pushed.drop s.popped.length

variable {owner t t' : Θ} {s u : State Θ C} {ctx : C}

theorem contexts_push (h : s.popped <+: s.pushed) (hpushed : u.pushed = s.pushed ++ [ctx])
    (hpopped : u.popped = s.popped) : u.contexts = s.contexts ++ [ctx] := by
  rw [State.contexts, State.contexts, hpushed, hpopped, List.drop_append_of_le_length h.length_le]

theorem contexts_pop (h : u.popped <+: u.pushed) (hpushed : u.pushed = s.pushed)
    (hpopped : u.popped = s.popped ++ [ctx]) : s.contexts = ctx :: u.contexts := by
  obtain ⟨rest, hrest⟩ := h
  rw [State.contexts, State.contexts, ← hpushed, ← hrest, hpopped, List.append_assoc, List.drop_left,
    ← List.append_assoc, List.drop_left]
  rfl

variable [DecidableEq Θ]

theorem step_push (hs : step owner s (.push ctx) = some u) : u = s.goto owner (.pushBottom ctx) := by
  rw [ContextSpmcQueue.step] at hs
  split at hs
  · cases hs
  · rw [enabledStep] at hs
    split at hs
    · exact (Option.some.inj hs).symm
    · cases hs

theorem step_pop (hs : step owner s (.pop t) = some u) : u = s.goto t .popTop := by
  rw [ContextSpmcQueue.step] at hs
  split at hs
  · cases hs
  · rw [enabledStep] at hs
    split at hs
    · exact (Option.some.inj hs).symm
    · cases hs

theorem step_go (hs : step owner s (.go t) = some u) : s.go t = some u := by
  rw [ContextSpmcQueue.step] at hs
  split at hs
  · cases hs
  · exact hs

/-- What an access leaves of the other threads. -/
theorem go_pc_ne (hs : s.go t = some u) (ht : t' ≠ t) : u.pc t' = s.pc t' := by
  rw [State.go] at hs
  split at hs
  case h_1 => cases hs
  case h_5 | h_9 | h_11 | h_12 =>
    split at hs
    all_goals
      cases hs
      first
        | exact Function.update_of_ne ht _ _
        | rfl
  all_goals
    cases hs
    exact Function.update_of_ne ht _ _

/-- An access within a call, or the last one of a `push` or of a `pop`. -/
theorem go_cases (hs : s.go t = some u) :
    (s.returns t = none ∧ (u.pc t).call = (s.pc t).call ∧ u.pushed = s.pushed ∧ u.popped = s.popped) ∨
    (u.pc t = .idle ∧
      ((∃ ctx, s.returns t = some .pushed ∧ (s.pc t).call = some (.push ctx) ∧
          u.pushed = s.pushed ++ [ctx] ∧ u.popped = s.popped) ∨
        (∃ ctx, s.returns t = some (.popped ctx) ∧ (s.pc t).call = some .pop ∧
          u.pushed = s.pushed ∧ u.popped = s.popped ++ [ctx]) ∨
        (s.returns t = some .null ∧ (s.pc t).call = some .pop ∧
          u.pushed = s.pushed ∧ u.popped = s.popped))) := by
  rw [State.go] at hs
  split at hs
  case h_1 => cases hs
  case h_7 ctx bottom hpc =>
    cases hs
    exact .inr ⟨goto_pc _ _ _, .inl ⟨ctx, by rw [State.returns, hpc], by rw [hpc]; rfl, rfl, rfl⟩⟩
  case h_9 top popped hpc =>
    split at hs
    · rename_i hlt
      cases hs
      exact .inl ⟨by simp [State.returns, hpc, hlt], by rw [goto_pc, hpc]; rfl, rfl, rfl⟩
    · rename_i hle
      cases hs
      exact .inr ⟨goto_pc _ _ _, .inr (.inr ⟨by simp [State.returns, hpc, hle], by rw [hpc]; rfl, rfl, rfl⟩)⟩
  case h_12 top ctx popped pushed hpc =>
    split at hs
    · rename_i htop
      cases hs
      exact .inr ⟨goto_pc _ _ _, .inr (.inl ⟨ctx, by simp [State.returns, hpc, htop], by rw [hpc]; rfl, rfl, rfl⟩)⟩
    · rename_i htop
      cases hs
      exact .inr ⟨goto_pc _ _ _, .inr (.inr ⟨by simp [State.returns, hpc, htop], by rw [hpc]; rfl, rfl, rfl⟩)⟩
  case h_5 hpc | h_11 hpc =>
    split at hs
    all_goals
      cases hs
      refine .inl ⟨by rw [State.returns, hpc], ?_, rfl, rfl⟩
      first
        | rw [goto_pc, hpc]; rfl
        | rfl
  all_goals
    rename_i hpc
    cases hs
    exact .inl ⟨by rw [State.returns, hpc], by rw [goto_pc, hpc]; rfl, rfl, rfl⟩

end Dumbo.Fiber.ContextSpmcQueue
