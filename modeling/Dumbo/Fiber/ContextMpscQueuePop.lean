import Dumbo.Fiber.ContextMpscQueueSafety

/-!
# What `pop` finds

`pop` may return null although contexts are in the queue, but only where it has come upon a thread between its
exchange and its store of the link.
-/

namespace Dumbo.Fiber.ContextMpscQueue

open Transition

variable {Θ C : Type*} {s s' : State Θ C} {rest : List (Node C)} {a : Action Θ C} {as : List (Action Θ C)}
  {pushed : List C} {popped : List (Node C)}

/-- No thread is between its exchange and its store of the link. -/
def Quiet (s : State Θ C) : Prop := ∀ t, ¬ s.Linking t

/-- A step that finds no thread there. -/
def Undisturbed (s : State Θ C) (a : Action Θ C) : Prop := PushesUnlinked s a ∧ Quiet s

/-- What a `pop` knows that has come upon no such thread. -/
def Knows (s : State Θ C) : PopPc C → Prop
  | .idle => False
  | .next => True
  | .head | .clear | .exchange => s.tail = s.head
  | .link prev => prev = s.tail
  | .last => s.next s.tail = some .dummy

/-- A `pop` is under way that has come upon no such thread. -/
structure Attempt (pushed : List C) (popped : List (Node C)) (s : State Θ C) : Prop where
  pushed : s.pushed = pushed
  popped : s.popped = popped
  knows : Knows s s.popping

/-- The `pop` has returned, with the first context if there was one. -/
structure Done (pushed : List C) (popped : List (Node C)) (s : State Θ C) : Prop where
  idle : s.popping = .idle
  popped : s.popped = (pushed.map Node.ctx).take (popped.length + 1)

theorem Inv.take_succ (h : Inv s rest) (htail : s.tail ≠ .dummy) :
    (s.pushed.map Node.ctx).take (s.popped.length + 1) = s.popped ++ [s.tail] := by
  rw [h.contents, List.filter_cons_of_pos (isCtx_iff.mpr htail), List.append_cons]
  exact List.take_left' (by simp)

/-- With no such thread, a first node that has no link is the only one. -/
theorem Inv.single (h : Inv s rest) (hquiet : Quiet s) (hnot : ∀ prev, s.popping ≠ .link prev)
    (hnone : s.next s.tail = none) : rest = [] := by
  cases rest with
  | nil => rfl
  | cons m rest =>
    rcases h.chained.head_pending hnone with ⟨t, c, hc, -⟩ | ⟨hpop, -⟩
    · exact absurd ⟨s.tail, c, hc⟩ (hquiet t)
    · exact absurd hpop (hnot _)

theorem Inv.head_of_single (h : Inv s rest) (hrest : rest = []) : s.tail = s.head := by
  have hlast := h.head
  rw [hrest] at hlast
  exact Option.some.inj hlast

theorem Attempt.done (h : Attempt pushed popped s) (hinv : Inv s rest) (htail : s.tail ≠ .dummy) (n : Node C) :
    Done pushed popped (s.take n) := by
  refine ⟨rfl, ?_⟩
  rw [← h.pushed, ← h.popped, hinv.take_succ htail]
  rfl

theorem Attempt.pop (hinv : Inv s rest) (hquiet : Quiet s) (hidle : s.popping = .idle) :
    Attempt s.pushed s.popped s.pop ∨ Done s.pushed s.popped s.pop := by
  have hnot : ∀ prev, s.popping ≠ .link prev := by simp [hidle]
  rw [State.pop]
  split
  · rename_i htail hnone
    refine .inr ⟨hidle, ?_⟩
    have hcontents := hinv.contents
    rw [hinv.single hquiet hnot (htail ▸ hnone), List.filter_cons_of_neg (by rw [htail]; simp [Node.isCtx])]
      at hcontents
    rw [hcontents, List.filter_nil, List.append_nil, List.take_of_length_le (Nat.le_succ _)]
  · exact .inl ⟨rfl, rfl, trivial⟩
  · rename_i c n htail hnext
    refine .inr ⟨rfl, ?_⟩
    rw [hinv.take_succ (by simp [htail])]
    rfl
  · rename_i c htail hnone
    have hsingle := hinv.single hquiet hnot (htail ▸ hnone)
    exact .inl ⟨rfl, rfl, hinv.head_of_single hsingle⟩

section Steps

variable [DecidableEq C]

theorem Attempt.goPop (h : Attempt pushed popped s) (hinv : Inv s rest) (hquiet : Quiet s)
    (hs : s.goPop = some s') : Attempt pushed popped s' ∨ Done pushed popped s' := by
  have hknows := h.knows
  rw [State.goPop] at hs
  split at hs
  · cases hs
  · rename_i hpc
    split at hs
    · rename_i n hnext
      cases hs
      exact .inr (h.done hinv (hinv.tail_ne (by simp [hpc])) n)
    · rename_i hnone
      cases hs
      have hsingle := hinv.single hquiet (by simp [hpc]) hnone
      exact .inl ⟨h.pushed, h.popped, hinv.head_of_single hsingle⟩
  · rename_i hpc
    cases hs
    rw [hpc] at hknows
    have heq : s.tail = s.head := hknows
    rw [if_pos heq]
    exact .inl ⟨h.pushed, h.popped, heq⟩
  · rename_i hpc
    cases hs
    rw [hpc] at hknows
    exact .inl ⟨h.pushed, h.popped, hknows⟩
  · rename_i hpc
    cases hs
    rw [hpc] at hknows
    exact .inl ⟨h.pushed, h.popped, Eq.symm hknows⟩
  · rename_i prev hpc
    cases hs
    rw [hpc] at hknows
    have heq : prev = s.tail := hknows
    refine .inl ⟨h.pushed, h.popped, ?_⟩
    rw [heq]
    exact setNext_self s s.tail _
  · rename_i hpc
    rw [hpc] at hknows
    have hnext : s.next s.tail = some .dummy := hknows
    rw [hnext] at hs
    cases hs
    exact .inr (h.done hinv (hinv.tail_ne (by simp [hpc])) .dummy)

variable [DecidableEq Θ]

/-- A step of any thread: either none has come between, or one is now between its exchange and its link. -/
theorem Attempt.step (h : Attempt pushed popped s) (hinv : Inv s rest) (hok : Undisturbed s a)
    (hnopop : a ≠ .pop) (hs : step s a = some s') :
    Attempt pushed popped s' ∨ Done pushed popped s' ∨ (¬ Quiet s' ∧ s'.popping = s.popping) := by
  obtain ⟨hunlinked, hquiet⟩ := hok
  cases a with
  | push t c =>
    obtain ⟨-, rfl⟩ := Option.ite_none_right_eq_some.mp hs |>.imp_right Option.some.inj
    have hout : s.tail ≠ .ctx c := fun htail =>
      hunlinked.1 (hinv.mem_waiting.mpr (htail ▸ List.mem_cons_self))
    have hknows := h.knows
    refine .inl ⟨h.pushed, h.popped, ?_⟩
    show Knows _ s.popping
    cases hp : s.popping with
    | last =>
      rw [hp] at hknows
      exact (setNext_of_ne s none hout).trans hknows
    | _ =>
      rw [hp] at hknows
      exact hknows
  | goPush t =>
    change s.goPush t = some s' at hs
    rw [State.goPush] at hs
    split at hs
    · cases hs
    · rename_i c hpc
      cases hs
      refine .inr (.inr ⟨fun hq => hq t ⟨s.head, c, ?_⟩, rfl⟩)
      rw [setPushing_pushing, if_pos rfl]
    · rename_i prev c hpc
      exact absurd ⟨prev, c, hpc⟩ (hquiet t)
  | pop => exact absurd rfl hnopop
  | goPop => exact (h.goPop hinv hquiet hs).imp_right .inl

theorem Done.step (h : Done pushed popped s) (hnopop : a ≠ .pop) (hs : step s a = some s') :
    Done pushed popped s' := by
  cases a with
  | push t c =>
    obtain ⟨-, rfl⟩ := Option.ite_none_right_eq_some.mp hs |>.imp_right Option.some.inj
    exact ⟨h.idle, h.popped⟩
  | goPush t =>
    change s.goPush t = some s' at hs
    rw [State.goPush] at hs
    split at hs
    · cases hs
    · cases hs
      exact ⟨h.idle, h.popped⟩
    · cases hs
      exact ⟨h.idle, h.popped⟩
  | pop => exact absurd rfl hnopop
  | goPop =>
    change s.goPop = some s' at hs
    rw [State.goPop, h.idle] at hs
    cases hs

theorem Done.exec (h : Done pushed popped s) (hnopop : .pop ∉ as)
    (hrun : (machine Θ C).exec s as = some s') : Done pushed popped s' := by
  induction as generalizing s with
  | nil =>
    cases hrun
    exact h
  | cons a as ih =>
    obtain ⟨u, hu, hrun⟩ := Machine.exec_cons.mp hrun
    obtain ⟨hne, hnopop⟩ := not_or.mp (mt List.mem_cons.mpr hnopop)
    exact ih (h.step (Ne.symm hne) hu) hnopop hrun

theorem Attempt.exec (h : Attempt pushed popped s) (hinv : Inv s rest) (hnopop : .pop ∉ as)
    (hmeet : (machine Θ C).StepsMeet Undisturbed s as) (hrun : (machine Θ C).exec s as = some s')
    (hend : s'.popping = .idle) : Done pushed popped s' := by
  have hbusy : ∀ {v : State Θ C}, Knows v v.popping → v.popping ≠ .idle := by
    intro v hv hidle
    rw [hidle] at hv
    exact hv
  induction as generalizing s rest with
  | nil =>
    cases hrun
    exact absurd hend (hbusy h.knows)
  | cons a as ih =>
    obtain ⟨u, hu, hrun⟩ := Machine.exec_cons.mp hrun
    obtain ⟨rest', hinv'⟩ := hinv.step hmeet.1.1 hu
    obtain ⟨hne, hnopop⟩ := not_or.mp (mt List.mem_cons.mpr hnopop)
    have hmeet' := hmeet.2 u hu
    rcases h.step hinv hmeet.1 (Ne.symm hne) hu with hnext | hdone | ⟨hlinking, hsame⟩
    · exact ih hnext hinv' hnopop hmeet' hrun
    · exact hdone.exec hnopop hrun
    · cases as with
      | nil =>
        cases hrun
        exact absurd (hsame.symm.trans hend) (hbusy h.knows)
      | cons b bs => exact absurd hmeet'.1.2 hlinking

/-! ### The steps of one `pop` -/

/-- The accesses that a `pop` has left. -/
def PopPc.left : PopPc C → Nat
  | .idle => 0
  | .last => 1
  | .link _ => 2
  | .exchange => 3
  | .clear => 4
  | .head => 5
  | .next => 6

omit [DecidableEq Θ] in
theorem goPop_left (hs : s.goPop = some s') : s'.popping.left < s.popping.left := by
  rw [State.goPop] at hs
  split at hs
  · cases hs
  · rename_i hpc
    split at hs <;> cases hs <;> simp [State.take, PopPc.left, hpc]
  · rename_i hpc
    cases hs
    simp only [hpc]
    split <;> simp [PopPc.left]
  · rename_i hpc
    cases hs
    simp [PopPc.left, hpc]
  · rename_i hpc
    cases hs
    simp [PopPc.left, hpc]
  · rename_i prev hpc
    cases hs
    simp [PopPc.left, hpc]
  · rename_i hpc
    split at hs <;> cases hs <;> simp [State.take, PopPc.left, hpc]

omit [DecidableEq C] [DecidableEq Θ] in
theorem pop_left (hidle : s.popping = .idle) : s.pop.popping.left ≤ 6 := by
  rw [State.pop]
  split <;> simp [State.take, PopPc.left, hidle]

theorem count_goPop_le (hnopop : .pop ∉ as) (hrun : (machine Θ C).exec s as = some s') :
    as.count .goPop + s'.popping.left ≤ s.popping.left := by
  induction as generalizing s with
  | nil =>
    cases hrun
    simp
  | cons a as ih =>
    obtain ⟨u, hu, hrun⟩ := Machine.exec_cons.mp hrun
    have hle := ih (fun hmem => hnopop (List.mem_cons_of_mem _ hmem)) hrun
    have hstep : step s a = some u := hu
    cases a with
    | push t c =>
      obtain ⟨-, rfl⟩ := Option.ite_none_right_eq_some.mp hstep |>.imp_right Option.some.inj
      rwa [List.count_cons_of_ne (by simp)]
    | goPush t =>
      have hsame : u.popping = s.popping := by
        change s.goPush t = some u at hstep
        rw [State.goPush] at hstep
        split at hstep <;> cases hstep <;> rfl
      rwa [List.count_cons_of_ne (by simp), ← hsame]
    | pop => exact absurd List.mem_cons_self hnopop
    | goPop =>
      have hlt := goPop_left hstep
      rw [List.count_cons_self]
      omega

/-- A `pop` makes at most six accesses behind its first; and if none of its steps and those of the others find a
thread between its exchange and its store of the link, then it takes the first context if there is one. -/
theorem context_mpsc_queue_pop (h : (machine Θ C).ReachableWith PushesUnlinked s) (hidle : s.popping = .idle)
    (hnopop : .pop ∉ as) (hrun : (machine Θ C).exec s.pop as = some s') :
    as.count .goPop ≤ 6 ∧
      (Quiet s → (machine Θ C).StepsMeet Undisturbed s.pop as → s'.popping = .idle →
        s'.popped = (s.pushed.map Node.ctx).take (s.popped.length + 1)) := by
  obtain ⟨rest, hinv⟩ := Inv.of_reachable h
  refine ⟨?_, fun hquiet hmeet hend => ?_⟩
  · have hcount := count_goPop_le hnopop hrun
    have hleft := pop_left hidle
    omega
  · obtain ⟨rest', hinv'⟩ := hinv.pop hidle
    rcases Attempt.pop hinv hquiet hidle with hattempt | hdone
    · exact (hattempt.exec hinv' hnopop hmeet hrun hend).popped
    · exact (hdone.exec hnopop hrun).popped

omit [DecidableEq Θ] in
theorem goPop_pushing (hs : s.goPop = some s') : s'.pushing = s.pushing := by
  rw [State.goPop] at hs
  split at hs
  · cases hs
  · split at hs <;> cases hs <;> rfl
  · cases hs
    rfl
  · cases hs
    rfl
  · cases hs
    rfl
  · cases hs
    rfl
  · split at hs <;> cases hs <;> rfl

/-- No step of a `pop` that runs alone finds a thread between its exchange and its store. -/
theorem alone_undisturbed (hquiet : Quiet s) (n : Nat) :
    (machine Θ C).StepsMeet Undisturbed s (List.replicate n .goPop) := by
  induction n generalizing s with
  | zero => trivial
  | succ n ih =>
    refine ⟨⟨trivial, hquiet⟩, fun u hu => ih fun t => ?_⟩
    have hpushing := goPop_pushing hu
    rw [State.Linking, hpushing]
    exact hquiet t

/-- The only context of the queue is taken: the dummy is pushed behind it. -/
theorem context_mpsc_queue_pop_only : ∃ s s' : State Unit Nat,
    (machine Unit Nat).exec s.pop (List.replicate 6 .goPop) = some s' ∧ s.pushed = [7] ∧ s.popped = [] ∧
      s'.popped = [.ctx 7] := by
  obtain ⟨s, hs, hpushed, hpopped, hidle, hquiet, s', hrun, hend⟩ : ∃ s : State Unit Nat,
      (machine Unit Nat).ReachableWith PushesUnlinked s ∧ s.pushed = [7] ∧ s.popped = [] ∧ s.popping = .idle ∧
      Quiet s ∧
      ∃ s', (machine Unit Nat).exec s.pop (List.replicate 6 .goPop) = some s' ∧ s'.popping = .idle := by
    refine ⟨_, reachable_of_exec [.push () 7, .goPush (), .goPush ()] rfl, rfl, rfl, rfl, ?_, _, rfl, rfl⟩
    rintro t ⟨prev, c, hc⟩
    cases hc
  obtain ⟨-, htakes⟩ := context_mpsc_queue_pop hs hidle (by decide) hrun
  have htaken := htakes hquiet (alone_undisturbed (s := s.pop) ?_ 6) hend
  · refine ⟨s, s', hrun, hpushed, hpopped, ?_⟩
    rw [htaken, hpushed, hpopped]
    rfl
  · have hpushing : s.pop.pushing = s.pushing := by
      rw [State.pop]
      split <;> rfl
    intro t
    rw [State.Linking, hpushing]
    exact hquiet t

end Steps

end Dumbo.Fiber.ContextMpscQueue
