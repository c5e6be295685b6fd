import Mathlib.Logic.Function.Basic
import Mathlib.Data.List.Nodup
import Mathlib.Tactic.Common

/-!
# Linked lists some of whose links are not stored yet

A list of nodes in which each node has a link to the next one, or is to get it: a node is appended before the
link to it is stored.
-/

namespace Transition

variable {N : Type*}

/-- The second node follows the first in the list. -/
inductive Adjacent : List N → N → N → Prop
  | head {a b l} : Adjacent (a :: b :: l) a b
  | tail {a b c l} : Adjacent l a b → Adjacent (c :: l) a b

namespace Adjacent

variable {l : List N} {a b c : N}

theorem mem_left (h : Adjacent l a b) : a ∈ l := by
  induction h with
  | head => exact List.mem_cons_self
  | tail _ ih => exact List.mem_cons_of_mem _ ih

theorem mem_tail (h : Adjacent l a b) : b ∈ l.tail := by
  induction h with
  | head => exact List.mem_cons_self
  | tail _ ih => exact List.mem_of_mem_tail ih

theorem cons_iff : Adjacent (c :: l) a b ↔ (a = c ∧ l.head? = some b) ∨ Adjacent l a b := by
  constructor
  · intro h
    cases h with
    | head => exact .inl ⟨rfl, rfl⟩
    | tail h => exact .inr h
  · intro h
    rcases h with ⟨rfl, hb⟩ | h
    · obtain ⟨rest, rfl⟩ : ∃ rest, l = b :: rest := by
        cases l with
        | nil => cases hb
        | cons d rest =>
          cases hb
          exact ⟨rest, rfl⟩
      exact .head
    · exact .tail h

theorem append (h : Adjacent l a b) (l' : List N) : Adjacent (l ++ l') a b := by
  induction h with
  | head => exact .head
  | tail _ ih => exact .tail ih

theorem concat_iff : Adjacent (l ++ [c]) a b ↔ Adjacent l a b ∨ (l.getLast? = some a ∧ b = c) := by
  induction l with
  | nil =>
    rw [List.nil_append, cons_iff]
    constructor
    · intro h
      rcases h with ⟨-, hb⟩ | h
      · cases hb
      · cases h
    · intro h
      rcases h with h | ⟨ha, -⟩
      · cases h
      · cases ha
  | cons d l ih =>
    rw [List.cons_append, cons_iff, ih, cons_iff]
    cases l with
    | nil =>
      simp only [List.nil_append, List.head?_cons, List.head?_nil, List.getLast?_nil, List.getLast?_singleton,
        Option.some.injEq, reduceCtorEq, and_false, false_and, false_or, or_false]
      constructor
      · intro h
        rcases h with ⟨rfl, rfl⟩ | h
        · exact .inr ⟨rfl, rfl⟩
        · exact .inl h
      · intro h
        rcases h with h | ⟨rfl, rfl⟩
        · exact .inr h
        · exact .inl ⟨rfl, rfl⟩
    | cons e l =>
      rw [List.cons_append, List.head?_cons, List.head?_cons, List.getLast?_cons_cons, or_assoc]

theorem ne_last (h : Adjacent l a b) (hl : l.Nodup) : l.getLast? ≠ some a := by
  induction h with
  | @head a b l =>
    intro hlast
    rw [List.getLast?_cons_cons] at hlast
    exact (List.nodup_cons.mp hl).1 (List.mem_of_getLast? hlast)
  | @tail a b c l h ih =>
    intro hlast
    cases l with
    | nil => cases h
    | cons d l =>
      rw [List.getLast?_cons_cons] at hlast
      exact ih (List.nodup_cons.mp hl).2 hlast

theorem right_unique (h : Adjacent l a b) (h' : Adjacent l a c) (hl : l.Nodup) : b = c := by
  induction h with
  | @head a b l =>
    have hnot := (List.nodup_cons.mp hl).1
    cases h' with
    | head => rfl
    | tail h' => exact absurd h'.mem_left hnot
  | @tail a b d l h ih =>
    obtain ⟨hnot, hl⟩ := List.nodup_cons.mp hl
    rcases cons_iff.mp h' with ⟨rfl, -⟩ | h'
    · exact absurd h.mem_left hnot
    · exact ih h' hl

end Adjacent

/-- Each node of the list has a link to the next one, or it is about to get it. -/
structure Chained (next : N → Option N) (pending : N → N → Prop) (l : List N) : Prop where
  nodup : l.Nodup
  link : ∀ a b, Adjacent l a b → next a = some b ∨ (next a = none ∧ pending a b)
  pending : ∀ a b, pending a b → next a = none ∧ Adjacent l a b
  last : ∀ a, l.getLast? = some a → next a = none

namespace Chained

variable {next : N → Option N} {pending pending' : N → N → Prop} {l : List N} {a b c : N}

theorem singleton (hnext : next a = none) (hpending : ∀ x y, ¬ pending x y) : Chained next pending [a] := by
  refine ⟨List.nodup_singleton a, fun x y h => ?_, fun x y h => absurd h (hpending x y), fun x hx => ?_⟩
  · cases h with
    | tail h => cases h
  · cases hx
    exact hnext

/-- A node is appended, and the link to it is to be stored. -/
theorem append (h : Chained next pending l) (ha : l.getLast? = some a) (hb : b ∉ l) (hnext : next b = none)
    (hp : ∀ x y, pending' x y ↔ pending x y ∨ (x = a ∧ y = b)) : Chained next pending' (l ++ [b]) := by
  refine ⟨?_, fun x y hxy => ?_, fun x y hxy => ?_, fun x hx => ?_⟩
  · rw [List.nodup_append]
    refine ⟨h.nodup, List.nodup_singleton b, fun x hx y hy => ?_⟩
    rintro rfl
    rw [List.mem_singleton] at hy
    exact hb (hy ▸ hx)
  · rcases Adjacent.concat_iff.mp hxy with hold | ⟨hx, rfl⟩
    · exact (h.link x y hold).imp_right fun hlate => ⟨hlate.1, (hp x y).mpr (.inl hlate.2)⟩
    · obtain rfl : a = x := Option.some.inj (ha.symm.trans hx)
      exact .inr ⟨h.last a ha, (hp a y).mpr (.inr ⟨rfl, rfl⟩)⟩
  · rcases (hp x y).mp hxy with hold | ⟨rfl, rfl⟩
    · obtain ⟨hnone, hadj⟩ := h.pending x y hold
      exact ⟨hnone, hadj.append [b]⟩
    · exact ⟨h.last x ha, Adjacent.concat_iff.mpr (.inr ⟨ha, rfl⟩)⟩
  · rw [List.getLast?_concat] at hx
    obtain rfl := Option.some.inj hx
    exact hnext

variable [DecidableEq N]

theorem store (h : Chained next pending l) (hab : pending a b)
    (hp : ∀ x y, pending' x y ↔ pending x y ∧ x ≠ a) :
    Chained (Function.update next a (some b)) pending' l := by
  obtain ⟨-, hadj⟩ := h.pending a b hab
  refine ⟨h.nodup, fun x y hxy => ?_, fun x y hxy => ?_, fun x hx => ?_⟩
  · by_cases hx : x = a
    · subst hx
      rw [Function.update_self, hadj.right_unique hxy h.nodup]
      exact .inl rfl
    · rw [Function.update_of_ne hx]
      exact (h.link x y hxy).imp_right fun hlate => ⟨hlate.1, (hp x y).mpr ⟨hlate.2, hx⟩⟩
  · obtain ⟨hold, hx⟩ := (hp x y).mp hxy
    rw [Function.update_of_ne hx]
    exact h.pending x y hold
  · have hne : x ≠ a := by
      rintro rfl
      exact hadj.ne_last h.nodup hx
    rw [Function.update_of_ne hne]
    exact h.last x hx

/-- The link of a node that is not in the list is cleared. -/
theorem clear (h : Chained next pending l) (hc : c ∉ l) : Chained (Function.update next c none) pending l := by
  have hkeep : ∀ x ∈ l, Function.update next c none x = next x := by
    intro x hx
    apply Function.update_of_ne
    rintro rfl
    exact hc hx
  refine ⟨h.nodup, fun x y hxy => ?_, fun x y hxy => ?_, fun x hx => ?_⟩
  · rw [hkeep x hxy.mem_left]
    exact h.link x y hxy
  · obtain ⟨hnone, hadj⟩ := h.pending x y hxy
    rw [hkeep x hadj.mem_left]
    exact ⟨hnone, hadj⟩
  · rw [hkeep x (List.mem_of_getLast? hx)]
    exact h.last x hx

omit [DecidableEq N]

theorem tail (h : Chained next pending (a :: l)) (ha : next a = some b) :
    l.head? = some b ∧ Chained next pending l := by
  cases l with
  | nil => cases (h.last a rfl).symm.trans ha
  | cons c l =>
    have hb : c = b := by
      rcases h.link a c .head with hc | ⟨hnone, -⟩
      · exact Option.some.inj (hc.symm.trans ha)
      · cases hnone.symm.trans ha
    subst hb
    refine ⟨rfl, (List.nodup_cons.mp h.nodup).2, fun x y hxy => h.link x y hxy.tail, fun x y hxy => ?_,
      fun x hx => h.last x hx⟩
    obtain ⟨hnone, hadj⟩ := h.pending x y hxy
    rcases Adjacent.cons_iff.mp hadj with ⟨rfl, -⟩ | hadj
    · cases hnone.symm.trans ha
    · exact ⟨hnone, hadj⟩

/-- Where the first node has no link and is not the last, its link is about to be stored. -/
theorem head_pending (h : Chained next pending (a :: b :: l)) (ha : next a = none) : pending a b := by
  rcases h.link a b .head with hb | ⟨-, hpending⟩
  · cases ha.symm.trans hb
  · exact hpending

theorem pending_unique (h : Chained next pending l) (hb : pending a b) (hc : pending a c) : b = c :=
  (h.pending a b hb).2.right_unique (h.pending a c hc).2 h.nodup

end Chained

end Transition
