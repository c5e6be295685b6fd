import Mathlib.Data.List.Basic

/-!
# Bounded queues that can be closed

What is seen of a queue of at most `capacity` values, one event for each operation.
-/

namespace Transition

structure Fifo (α : Type*) where
  contents : List α
  closed : Bool

namespace Fifo

variable {α : Type*}

inductive Event (α : Type*)
  | push (v : α)
  | pop (v : α)
  | close
  | full
  | empty
  /-- a value is refused, as the queue is closed -/
  | pushClosed
  /-- no value is to come -/
  | popClosed
  | timeout
  /-- nothing that a queue does -/
  | other

inductive Step (capacity : Nat) : Fifo α → Event α → Fifo α → Prop
  | push {l v} : l.length < capacity → Step capacity ⟨l, false⟩ (.push v) ⟨l ++ [v], false⟩
  | pop {v l c} : Step capacity ⟨v :: l, c⟩ (.pop v) ⟨l, c⟩
  | close {l c} : Step capacity ⟨l, c⟩ .close ⟨l, true⟩
  | full {l} : l.length = capacity → Step capacity ⟨l, false⟩ .full ⟨l, false⟩
  | empty : Step capacity ⟨[], false⟩ .empty ⟨[], false⟩
  | pushClosed {l} : Step capacity ⟨l, true⟩ .pushClosed ⟨l, true⟩
  | popClosed : Step capacity ⟨[], true⟩ .popClosed ⟨[], true⟩
  | timeout {q} : Step capacity q .timeout q

/-- The events of a queue that was empty and open. -/
inductive Run (capacity : Nat) : List (Event α) → Fifo α → Prop
  | nil : Run capacity [] ⟨[], false⟩
  | snoc {log q e q'} : Run capacity log q → Step capacity q e q' → Run capacity (log ++ [e]) q'

def Event.pushed : Event α → Option α
  | .push v => some v
  | _ => none

def Event.popped : Event α → Option α
  | .pop v => some v
  | _ => none

def pushes (log : List (Event α)) : List α := log.filterMap Event.pushed

def pops (log : List (Event α)) : List α := log.filterMap Event.popped

variable {capacity : Nat} {log : List (Event α)} {q q' : Fifo α} {e : Event α}

theorem pushes_concat (log : List (Event α)) (e : Event α) :
    pushes (log ++ [e]) = pushes log ++ e.pushed.toList := by
  rw [pushes, List.filterMap_append]
  cases he : e.pushed <;> simp [pushes, he]

theorem pops_concat (log : List (Event α)) (e : Event α) :
    pops (log ++ [e]) = pops log ++ e.popped.toList := by
  rw [pops, List.filterMap_append]
  cases he : e.popped <;> simp [pops, he]

theorem Step.conserve (h : Step capacity q e q') :
    q.contents ++ e.pushed.toList = e.popped.toList ++ q'.contents := by
  cases h <;> simp [Event.pushed, Event.popped]

/-- The values come out in the order in which they have gone in. -/
theorem Run.conserve (h : Run capacity log q) : pushes log = pops log ++ q.contents := by
  induction h with
  | nil => rfl
  | snoc _ hs ih =>
    rw [pushes_concat, pops_concat, ih, List.append_assoc, hs.conserve, List.append_assoc]

theorem Run.length_le (h : Run capacity log q) : q.contents.length ≤ capacity := by
  induction h with
  | nil => exact Nat.zero_le _
  | snoc _ hs ih =>
    cases hs with
    | push hlt =>
      rw [List.length_append]
      exact hlt
    | pop =>
      rw [List.length_cons] at ih
      exact Nat.le_of_succ_le ih
    | _ => exact ih

/-- What has happened before an event, and the state it has found. -/
theorem Run.at (h : Run capacity log q) {before after : List (Event α)}
    (hlog : log = before ++ e :: after) :
    ∃ p p', Run capacity before p ∧ Step capacity p e p' := by
  induction h generalizing after with
  | nil => exact absurd hlog (by simp)
  | @snoc log q e' q' hrun hs ih =>
    rcases List.eq_nil_or_concat after with rfl | ⟨after, e'', rfl⟩
    · obtain ⟨rfl, he⟩ := List.append_inj' hlog rfl
      rw [List.cons.injEq] at he
      exact ⟨q, q', hrun, he.1 ▸ hs⟩
    · rw [List.concat_eq_append, ← List.cons_append, ← List.append_assoc] at hlog
      exact ih (List.append_inj' hlog rfl).1

theorem Run.closed_of_mem (h : Run capacity log q) (hclose : .close ∈ log) : q.closed = true := by
  induction h with
  | nil => exact absurd hclose List.not_mem_nil
  | snoc _ hs ih =>
    rcases List.mem_append.mp hclose with hm | hm
    · have hq := ih hm
      cases hs <;> simp_all
    · rw [List.mem_singleton] at hm
      subst hm
      cases hs
      rfl

/-- Nothing is pushed behind a `close`. -/
theorem Run.no_push (h : Run capacity log q) {before after : List (Event α)} {v : α}
    (hlog : log = before ++ .push v :: after) : .close ∉ before := by
  intro hclose
  obtain ⟨p, p', hrun, hs⟩ := h.at hlog
  have hclosed := hrun.closed_of_mem hclose
  cases hs
  exact absurd hclosed Bool.false_ne_true

theorem Run.mem_of_closed (h : Run capacity log q) (hclosed : q.closed = true) : .close ∈ log := by
  induction h with
  | nil => exact absurd hclosed Bool.false_ne_true
  | snoc _ hs ih =>
    rw [List.mem_append]
    cases hs with
    | close => exact .inr (List.mem_singleton_self _)
    | _ => exact .inl (ih hclosed)

/-- The end is reported behind a `close`, when everything has been popped. -/
theorem Run.drained (h : Run capacity log q) {before after : List (Event α)}
    (hlog : log = before ++ .popClosed :: after) : .close ∈ before ∧ pops before = pushes before := by
  obtain ⟨p, p', hrun, hs⟩ := h.at hlog
  have hconserve := hrun.conserve
  have hmem := hrun.mem_of_closed
  cases hs
  rw [List.append_nil] at hconserve
  exact ⟨hmem rfl, hconserve.symm⟩

end Fifo

end Transition
