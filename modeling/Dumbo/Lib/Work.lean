import Dumbo.Lib.Machine
import Mathlib.Algebra.BigOperators.Group.Finset.Basic
import Mathlib.Algebra.Order.Ring.Nat

/-!
# Work that is left

A measure of the work of a system: its own steps lower the measure, and every other step raises it by what the
step costs. A run has no more steps of its own than it began with and has been given.
-/

namespace Transition

/-- A sum of which one term changes. -/
theorem sum_change {ι : Type*} [DecidableEq ι] {S : Finset ι} {f g : ι → Nat} {i : ι} (hi : i ∈ S)
    (h : ∀ j, j ≠ i → g j = f j) : ∑ j ∈ S, g j + f i = ∑ j ∈ S, f j + g i := by
  have hrest : ∑ j ∈ S.erase i, g j = ∑ j ∈ S.erase i, f j := by
    apply Finset.sum_congr rfl
    intro j hj
    exact h j (Finset.ne_of_mem_erase hj)
  rw [← Finset.add_sum_erase S g hi, ← Finset.add_sum_erase S f hi, hrest]
  omega

namespace Machine

variable {σ α : Type*} {M : Machine σ α} {own : σ → α → Bool} {work : σ → Nat} {cost : α → Nat} {P : σ → Prop}

/-- The number of the system's own steps in a run. -/
def countOwn (M : Machine σ α) (own : σ → α → Bool) : σ → List α → Nat
  | _, [] => 0
  | s, a :: as => (own s a).toNat + ((M.step s a).map fun t => countOwn M own t as).getD 0

theorem countOwn_add_le
    (hstep : ∀ s a t, P s → M.step s a = some t → P t ∧ (own s a).toNat + work t ≤ work s + cost a)
    {s t : σ} {as : List α} (hs : P s) (hrun : M.exec s as = some t) :
    M.countOwn own s as + work t ≤ work s + (as.map cost).sum := by
  induction as generalizing s with
  | nil =>
    cases hrun
    simp [countOwn]
  | cons a as ih =>
    obtain ⟨u, hu, hrun⟩ := exec_cons.mp hrun
    obtain ⟨hPu, hle⟩ := hstep s a u hs hu
    have hrest := ih hPu hrun
    simp only [countOwn, hu, Option.map_some, Option.getD_some, List.map_cons, List.sum_cons]
    omega

end Machine

end Transition
