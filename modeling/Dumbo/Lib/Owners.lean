import Mathlib.Logic.Function.Basic

/-!
# Owners of locks

Locks as their owners see them: `owner` is what the locks say, `holds` what the threads do, each of them holding
one lock at most.
-/

namespace Transition

variable {M O : Type*} {owner : M → Option O} {holds : O → Option M} {m : M} {o : O}

/-- A lock has an owner exactly while that thread holds it. -/
def Owned (owner : M → Option O) (holds : O → Option M) : Prop :=
  ∀ m o, owner m = some o ↔ holds o = some m

theorem Owned.exclusive (h : Owned owner holds) {o' : O} (ho : holds o = some m) (ho' : holds o' = some m) :
    o = o' := by
  have howner := (h m o).mpr ho
  rw [(h m o').mpr ho'] at howner
  exact (Option.some.inj howner).symm

theorem Owned.acquire [DecidableEq M] [DecidableEq O] (h : Owned owner holds) (hfree : owner m = none)
    (ho : holds o = none) : Owned (Function.update owner m (some o)) (Function.update holds o (some m)) := by
  intro m' o'
  by_cases hm : m' = m
  · subst hm
    rw [Function.update_self, Option.some.injEq]
    constructor
    · rintro rfl
      rw [Function.update_self]
    · intro h'
      by_contra hne
      rw [Function.update_of_ne (Ne.symm hne), ← h m' o', hfree] at h'
      cases h'
  · rw [Function.update_of_ne hm, h m' o']
    by_cases ho' : o' = o
    · subst ho'
      rw [Function.update_self, ho, Option.some.injEq]
      simp [Ne.symm hm]
    · rw [Function.update_of_ne ho']

theorem Owned.release [DecidableEq M] [DecidableEq O] (h : Owned owner holds) (ho : holds o = some m) :
    Owned (Function.update owner m none) (Function.update holds o none) := by
  intro m' o'
  by_cases ho' : o' = o
  · subst ho'
    rw [Function.update_self]
    by_cases hm : m' = m
    · subst hm
      rw [Function.update_self]
      simp
    · rw [Function.update_of_ne hm, h m' o', ho, Option.some.injEq]
      exact ⟨fun h' => absurd h'.symm hm, fun h' => by cases h'⟩
  · rw [Function.update_of_ne ho', ← h m' o']
    by_cases hm : m' = m
    · subst hm
      rw [Function.update_self, (h m' o).mpr ho]
      simp [Ne.symm ho']
    · rw [Function.update_of_ne hm]

end Transition
