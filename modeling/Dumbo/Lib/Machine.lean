import Mathlib.Logic.Function.Basic
import Mathlib.Data.List.Basic
import Mathlib.Order.Basic
import Mathlib.Tactic.Common

/-!
# Labelled machines

A machine has one start state and a partial step function: `step s a = none` means that the
action `a` is not enabled in `s`. Reachability is stated relative to a condition on the steps, so
that a property of all runs and a property of the runs that meet a side condition are proved by
one rule.
-/

namespace Transition

structure Machine (σ α : Type*) where
  start : σ
  step : σ → α → Option σ

namespace Machine

variable {σ α : Type*} (M : Machine σ α)

/-- Perform a list of actions; `none` when one of them is not enabled. -/
def exec : σ → List α → Option σ
  | s, [] => some s
  | s, a :: as => (M.step s a).bind fun t => exec t as

/-- States reached by runs all of whose steps meet the condition `ok`. -/
inductive ReachableWith (ok : σ → α → Prop) : σ → Prop
  | start : ReachableWith ok M.start
  | step {s a t} : ReachableWith ok s → ok s a → M.step s a = some t → ReachableWith ok t

/-- States reached by any run. -/
abbrev Reachable : σ → Prop := M.ReachableWith fun _ _ => True

variable {M} {ok : σ → α → Prop}

/-- The induction rule of every safety argument: the start state has the property and each
permitted step keeps it. -/
theorem ReachableWith.invariant {P : σ → Prop} (h0 : P M.start)
    (hstep : ∀ s a t, P s → ok s a → M.step s a = some t → P t) {s : σ}
    (h : M.ReachableWith ok s) : P s := by
  induction h with
  | start => exact h0
  | step _ hok hs ih => exact hstep _ _ _ ih hok hs

theorem Reachable.invariant {P : σ → Prop} (h0 : P M.start)
    (hstep : ∀ s a t, P s → M.step s a = some t → P t) {s : σ} (h : M.Reachable s) : P s :=
  ReachableWith.invariant h0 (fun s a t hp _ hs => hstep s a t hp hs) h

theorem ReachableWith.mono {ok' : σ → α → Prop} (hle : ∀ s a, ok s a → ok' s a) {s : σ}
    (h : M.ReachableWith ok s) : M.ReachableWith ok' s := by
  induction h with
  | start => exact .start
  | step _ hok hs ih => exact .step ih (hle _ _ hok) hs

theorem ReachableWith.reachable {s : σ} (h : M.ReachableWith ok s) : M.Reachable s :=
  h.mono fun _ _ _ => trivial

theorem exec_cons {s t : σ} {a : α} {as : List α} :
    M.exec s (a :: as) = some t ↔ ∃ u, M.step s a = some u ∧ M.exec u as = some t := by
  simp only [exec, Option.bind_eq_some_iff]

theorem Reachable.exec {s t : σ} {as : List α} (h : M.Reachable s)
    (he : M.exec s as = some t) : M.Reachable t := by
  induction as generalizing s with
  | nil =>
    simp only [Machine.exec, Option.some.injEq] at he
    exact he ▸ h
  | cons a as ih =>
    obtain ⟨u, hu, ht⟩ := exec_cons.mp he
    exact ih (.step h trivial hu) ht

theorem exec_append {s t : σ} {as bs : List α} :
    M.exec s (as ++ bs) = some t ↔ ∃ u, M.exec s as = some u ∧ M.exec u bs = some t := by
  induction as generalizing s with
  | nil =>
    simp only [List.nil_append, exec, Option.some.injEq]
    exact ⟨fun h => ⟨s, rfl, h⟩, fun ⟨_, hu, h⟩ => hu ▸ h⟩
  | cons a as ih =>
    rw [List.cons_append, exec_cons]
    simp only [exec_cons, ih]
    constructor
    · rintro ⟨v, hv, u, hu, ht⟩
      exact ⟨u, ⟨v, hv, hu⟩, ht⟩
    · rintro ⟨u, ⟨v, hv, hu⟩, ht⟩
      exact ⟨v, hv, u, hu, ht⟩

/-- A count that passes `n` in a run does so with one of the steps. -/
theorem exists_passing {f : σ → Nat} {n : Nat} {s t : σ} {as : List α} (he : M.exec s as = some t)
    (hs : f s ≤ n) (ht : n < f t) : ∃ as₁ a as₂ u v, as = as₁ ++ a :: as₂ ∧ M.exec s as₁ = some u ∧
      M.step u a = some v ∧ M.exec v as₂ = some t ∧ f u ≤ n ∧ n < f v := by
  induction as generalizing s with
  | nil =>
    cases he
    exact absurd ht (Nat.not_lt.mpr hs)
  | cons a as ih =>
    obtain ⟨v, hv, he⟩ := exec_cons.mp he
    by_cases hn : n < f v
    · exact ⟨[], a, as, s, v, rfl, rfl, hv, he, hs, hn⟩
    · obtain ⟨as₁, b, as₂, u, w, rfl, hu, hw, he, hlow, hhigh⟩ := ih he (Nat.not_lt.mp hn)
      exact ⟨a :: as₁, b, as₂, u, w, rfl, exec_cons.mpr ⟨v, hv, hu⟩, hw, he, hlow, hhigh⟩

/-- A step that changes nothing may be taken any number of times. -/
theorem exec_replicate {s : σ} {a : α} (h : M.step s a = some s) (n : Nat) :
    M.exec s (List.replicate n a) = some s := by
  induction n with
  | zero => rfl
  | succ n ih =>
    rw [List.replicate_succ, exec_cons]
    exact ⟨s, h, ih⟩

/-- A concrete run from the start state shows its last state reachable. -/
theorem reachable_of_exec {as : List α} {t : σ} (he : M.exec M.start as = some t) :
    M.Reachable t :=
  Reachable.exec .start he

/-- A function between states under which the steps of one machine are steps of another takes the
runs of the first to runs of the second. -/
theorem Reachable.map {τ : Type*} {N : Machine τ α} (f : σ → τ) (h0 : f M.start = N.start)
    (hstep : ∀ s a t, M.step s a = some t → N.step (f s) a = some (f t)) {s : σ}
    (h : M.Reachable s) : N.Reachable (f s) := by
  induction h with
  | start => exact h0 ▸ .start
  | step _ _ hs ih => exact .step ih trivial (hstep _ _ _ hs)

/-- Where a function between states commutes with every step, it does so with every run. -/
theorem exec_map {τ : Type*} {N : Machine τ α} (f : σ → τ)
    (hstep : ∀ s a, N.step (f s) a = (M.step s a).map f) (s : σ) (as : List α) :
    N.exec (f s) as = (M.exec s as).map f := by
  induction as generalizing s with
  | nil => rfl
  | cons a as ih =>
    rw [exec, exec, hstep]
    cases M.step s a with
    | none => rfl
    | some t => exact ih t

section Runs

/-- A property of every state of a run. -/
def Throughout (M : Machine σ α) (P : σ → Prop) : σ → List α → Prop
  | s, [] => P s
  | s, a :: as => P s ∧ ∀ t, M.step s a = some t → Throughout M P t as

/-- A condition on every step of a run. -/
def StepsMeet (M : Machine σ α) (ok : σ → α → Prop) : σ → List α → Prop
  | _, [] => True
  | s, a :: as => ok s a ∧ ∀ t, M.step s a = some t → StepsMeet M ok t as

theorem Throughout.head {P : σ → Prop} {s : σ} {as : List α} (h : M.Throughout P s as) : P s := by
  cases as with
  | nil => exact h
  | cons => exact h.1

/-- The rule for a condition that is exact: a step that meets it keeps the invariant, and one that does
not leaves the property broken. -/
theorem throughout_iff {inv P : σ → Prop} (hP : ∀ s, inv s → P s)
    (hkeep : ∀ s a t, inv s → ok s a → M.step s a = some t → inv t)
    (hbreak : ∀ s a t, inv s → ¬ ok s a → M.step s a = some t → ¬ P t) {s t : σ} {as : List α}
    (hs : inv s) (hrun : M.exec s as = some t) : M.Throughout P s as ↔ M.StepsMeet ok s as := by
  induction as generalizing s with
  | nil => exact ⟨fun _ => trivial, fun _ => hP s hs⟩
  | cons a as ih =>
    obtain ⟨u, hu, hrun⟩ := exec_cons.mp hrun
    constructor
    · rintro ⟨-, hrest⟩
      have hok : ok s a := by
        by_contra hnot
        exact hbreak s a u hs hnot hu (hrest u hu).head
      refine ⟨hok, fun t ht => ?_⟩
      obtain rfl : u = t := Option.some.inj (hu.symm.trans ht)
      exact (ih (hkeep s a u hs hok hu) hrun).mp (hrest u hu)
    · rintro ⟨hok, hrest⟩
      refine ⟨hP s hs, fun t ht => ?_⟩
      obtain rfl : u = t := Option.some.inj (hu.symm.trans ht)
      exact (ih (hkeep s a u hs hok hu) hrun).mpr (hrest u hu)

end Runs

/-- The machine that refuses the steps outside of a decidable condition. -/
def guarded (M : Machine σ α) (check : σ → α → Bool) : Machine σ α :=
  ⟨M.start, fun s a => if check s a then M.step s a else none⟩

theorem guarded_step {check : σ → α → Bool} {s t : σ} {a : α} :
    (M.guarded check).step s a = some t ↔ check s a ∧ M.step s a = some t := by
  simp only [guarded, Option.ite_none_right_eq_some]

theorem reachableWith_of_exec {check : σ → α → Bool} {as : List α} {t : σ}
    (he : (M.guarded check).exec M.start as = some t) :
    M.ReachableWith (fun s a => check s a) t := by
  have hr : (M.guarded check).Reachable t := reachable_of_exec he
  clear he
  induction hr with
  | start => exact .start
  | step _ _ hs ih =>
    obtain ⟨hc, hs⟩ := guarded_step.mp hs
    exact .step ih hc hs

section Progress

variable {P done : σ → Prop} (hP : ∀ s a t, P s → M.step s a = some t → P t)
  (hdone : ∀ s a t, P s → done s → M.step s a = some t → done t)

include hP hdone in
theorem exec_stable {s t : σ} {as : List α} (hs : P s) (hd : done s)
    (he : M.exec s as = some t) : done t := by
  induction as generalizing s with
  | nil =>
    simp only [exec, Option.some.injEq] at he
    exact he ▸ hd
  | cons a as ih =>
    obtain ⟨u, hu, ht⟩ := exec_cons.mp he
    exact ih (hP s a u hs hu) (hdone s a u hs hd hu) ht

include hP hdone in
/-- A measure that every step decreases until a stable goal is reached bounds the length of the runs
that have not reached it. -/
theorem exec_done_or_le (μ : σ → Nat)
    (hμ : ∀ s a t, P s → M.step s a = some t → done t ∨ μ t < μ s) {s t : σ} {as : List α}
    (hs : P s) (he : M.exec s as = some t) : done t ∨ μ t + as.length ≤ μ s := by
  induction as generalizing s with
  | nil =>
    simp only [exec, Option.some.injEq] at he
    rw [he]
    exact .inr (Nat.le_refl _)
  | cons a as ih =>
    obtain ⟨u, hu, ht⟩ := exec_cons.mp he
    have hPu := hP s a u hs hu
    rcases hμ s a u hs hu with hd | hlt
    · exact .inl (exec_stable hP hdone hPu hd ht)
    · rcases ih hPu ht with hd | hle
      · exact .inl hd
      · right
        rw [List.length_cons]
        omega

end Progress

/-- The runs that meet the condition end, and all of them with one result. -/
structure EndsIn {ρ : Type*} (M : Machine σ α) (ok : σ → α → Prop) (result : σ → Option ρ)
    (r : ρ) : Prop where
  same : ∀ s, M.ReachableWith ok s → ∀ r', result s = some r' → r' = r
  progress : ∀ s, M.ReachableWith ok s → result s = none → ∃ a t, ok s a ∧ M.step s a = some t
  terminates : ∃ μ : σ → Nat, ∀ s a t, M.ReachableWith ok s → ok s a → M.step s a = some t →
    μ t < μ s

end Machine

end Transition
