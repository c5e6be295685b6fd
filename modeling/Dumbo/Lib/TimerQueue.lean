import Mathlib.Data.List.Sort
import Mathlib.Data.List.TakeWhile
import Mathlib.Order.Basic

/-!
# Queues ordered by deadline

An element is inserted behind those of its deadline, and a pass takes elements from the front as long as
they are due.
-/

namespace Transition.TimerQueue

variable {C T : Type*} [LinearOrder T]

/-- An earlier deadline, or the same one and an earlier insertion. -/
def Before (deadline : C → T) (inserted : C → Nat) (a b : C) : Prop :=
  deadline a < deadline b ∨ deadline a = deadline b ∧ inserted a < inserted b

variable {deadline : C → T} {inserted : C → Nat} {c : C} {l : List C}

theorem Before.le {a b : C} (h : Before deadline inserted a b) : deadline a ≤ deadline b := by
  rcases h with h | ⟨he, -⟩
  · exact h.le
  · exact he.le

theorem pairwise_orderedInsert (hl : l.Pairwise (Before deadline inserted))
    (hnew : ∀ x ∈ l, inserted x < inserted c) :
    (l.orderedInsert (fun a b => deadline a < deadline b) c).Pairwise (Before deadline inserted) := by
  induction l with
  | nil => exact List.pairwise_singleton _ _
  | cons x xs ih =>
    rw [List.pairwise_cons] at hl
    rw [List.orderedInsert]
    by_cases hlt : deadline c < deadline x
    · rw [if_pos hlt, List.pairwise_cons, List.pairwise_cons]
      refine ⟨fun y hy => .inl ?_, hl⟩
      rcases List.mem_cons.mp hy with rfl | hy
      · exact hlt
      · exact lt_of_lt_of_le hlt (hl.1 y hy).le
    · rw [if_neg hlt, List.pairwise_cons]
      refine ⟨fun y hy => ?_, ih hl.2 fun y hy => hnew y (List.mem_cons_of_mem x hy)⟩
      rcases (List.mem_orderedInsert _).mp hy with rfl | hy
      · rcases lt_or_eq_of_le (not_lt.mp hlt) with h | h
        · exact .inl h
        · exact .inr ⟨h, hnew x List.mem_cons_self⟩
      · exact hl.1 y hy

theorem pairwise_congr {deadline' : C → T} {inserted' : C → Nat}
    (hl : l.Pairwise (Before deadline inserted)) (hd : ∀ x ∈ l, deadline' x = deadline x)
    (hi : ∀ x ∈ l, inserted' x = inserted x) : l.Pairwise (Before deadline' inserted') := by
  refine hl.imp_of_mem fun hx hy h => ?_
  rw [Before, hd _ hx, hd _ hy, hi _ hx, hi _ hy]
  exact h

/-! ### A pass over the elements that are due -/

variable {now : T}

/-- The due elements at the front. -/
def due (deadline : C → T) (now : T) (l : List C) : List C := l.takeWhile fun c => deadline c ≤ now

def later (deadline : C → T) (now : T) (l : List C) : List C := l.dropWhile fun c => deadline c ≤ now

theorem due_cons (hc : deadline c ≤ now) : due deadline now (c :: l) = c :: due deadline now l :=
  List.takeWhile_cons_of_pos (decide_eq_true hc)

theorem later_cons (hc : deadline c ≤ now) : later deadline now (c :: l) = later deadline now l :=
  List.dropWhile_cons_of_pos (decide_eq_true hc)

theorem due_cons_of_not (hc : ¬ deadline c ≤ now) : due deadline now (c :: l) = [] :=
  List.takeWhile_cons_of_neg (by simpa using hc)

theorem later_cons_of_not (hc : ¬ deadline c ≤ now) : later deadline now (c :: l) = c :: l :=
  List.dropWhile_cons_of_neg (by simpa using hc)

/-- A pass only looks at the elements that are there. -/
theorem pass_congr (now : T) {deadline' : C → T} (hl : ∀ x ∈ l, deadline' x = deadline x) :
    due deadline' now l = due deadline now l ∧ later deadline' now l = later deadline now l := by
  induction l with
  | nil => exact ⟨rfl, rfl⟩
  | cons x xs ih =>
    obtain ⟨hdue, hlater⟩ := ih fun y hy => hl y (List.mem_cons_of_mem x hy)
    have hx := hl x List.mem_cons_self
    by_cases hle : deadline x ≤ now
    · rw [due_cons hle, later_cons hle, due_cons (hx ▸ hle), later_cons (hx ▸ hle), hdue, hlater]
      exact ⟨rfl, rfl⟩
    · rw [due_cons_of_not hle, later_cons_of_not hle, due_cons_of_not (hx ▸ hle),
        later_cons_of_not (hx ▸ hle)]
      exact ⟨rfl, rfl⟩

theorem due_append_later (deadline : C → T) (now : T) (l : List C) :
    due deadline now l ++ later deadline now l = l :=
  List.takeWhile_append_dropWhile

theorem due_le (hc : c ∈ due deadline now l) : deadline c ≤ now := by
  have hdue := List.mem_takeWhile_imp hc
  exact of_decide_eq_true hdue

/-- Behind the first element that is not due none is. -/
theorem lt_later (hl : l.Pairwise (Before deadline inserted)) (hc : c ∈ later deadline now l) :
    now < deadline c := by
  induction l with
  | nil => exact absurd hc List.not_mem_nil
  | cons x xs ih =>
    rw [List.pairwise_cons] at hl
    by_cases hx : deadline x ≤ now
    · rw [later_cons hx] at hc
      exact ih hl.2 hc
    · rw [later_cons_of_not hx] at hc
      rcases List.mem_cons.mp hc with rfl | hc
      · exact not_le.mp hx
      · exact lt_of_lt_of_le (not_le.mp hx) (hl.1 c hc).le

end Transition.TimerQueue
