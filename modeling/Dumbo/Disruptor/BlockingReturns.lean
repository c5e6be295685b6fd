import Dumbo.Disruptor.BlockingStrategy

/-!
# What a blocking wait returns

A value that `BlockingStrategy::WaitFor` returns is a signal, or a sequence at or past the requested one that the
publishers and the dependents have released.
-/

namespace Dumbo.Disruptor.Blocking

open Transition

variable {C P S : Type} {longMax : Int} {topology : Topology C S} {s t : State C P S} {c : C}

/-- Up to the cursor, and up to the sequence of each dependent. -/
def Released (topology : Topology C S) (s : State C P S) (c : C) (v : Int) : Prop :=
  v ≤ s.cursor ∧ ∀ d ∈ topology.dependents c, v ≤ s.sequence d

def Signal (v : Int) : Prop := v = kAlertedSignal ∨ v = kTimeoutSignal

/-- What the place of a consumer says about the values it has loaded. -/
def Place (topology : Topology C S) (s : State C P S) (c : C) : ConsumerPc → Prop
  | .unlock call (.available v) => call.sequence ≤ v ∧ v ≤ s.cursor
  | .unlock _ (.signal v) => Signal v
  | .scan _ n m => topology.dependents c ≠ [] ∧ n ≤ (topology.dependents c).length ∧
    ∀ i d, i < n → (topology.dependents c)[i]? = some d → m ≤ s.sequence d
  | .scanAlerted _ => topology.dependents c ≠ []
  | _ => True

structure Loaded (topology : Topology C S) (s : State C P S) : Prop where
  behind : ∀ d, s.sequence d ≤ s.cursor
  place : ∀ c, Place topology s c (s.consumer c)
  returned : ∀ c q v, (q, v) ∈ s.returned c → Signal v ∨ q ≤ v ∧ Released topology s c v

theorem Loaded.initial : Loaded topology (.initial : State C P S) := by
  refine ⟨fun _ => Int.le_refl _, fun _ => trivial, ?_⟩
  intro c q v hv
  exact absurd hv List.not_mem_nil

theorem Place.mono {pc : ConsumerPc} (h : Place topology s c pc) (hcursor : s.cursor ≤ t.cursor)
    (hsequence : ∀ d, s.sequence d ≤ t.sequence d) : Place topology t c pc := by
  cases pc with
  | unlock call outcome =>
    cases outcome with
    | available v => exact ⟨h.1, Int.le_trans h.2 hcursor⟩
    | signal v => exact h
  | scan call n m =>
    refine ⟨h.1, h.2.1, ?_⟩
    intro i d hi hd
    exact Int.le_trans (h.2.2 i d hi hd) (hsequence d)
  | _ => exact h

theorem Loaded.mono (h : Loaded topology s) (hcursor : s.cursor ≤ t.cursor)
    (hsequence : ∀ d, s.sequence d ≤ t.sequence d) (hbehind : ∀ d, t.sequence d ≤ t.cursor)
    (hconsumer : ∀ c, t.consumer c = s.consumer c ∨ Place topology t c (t.consumer c))
    (hreturned : t.returned = s.returned) : Loaded topology t := by
  refine ⟨hbehind, ?_, ?_⟩
  · intro c
    rcases hconsumer c with hsame | hplace
    · rw [hsame]
      exact (h.place c).mono hcursor hsequence
    · exact hplace
  · intro c q v hv
    rw [hreturned] at hv
    rcases h.returned c q v hv with hsignal | ⟨hle, hv, hd⟩
    · exact .inl hsignal
    · refine .inr ⟨hle, Int.le_trans hv hcursor, ?_⟩
      intro d hmem
      exact Int.le_trans (hd d hmem) (hsequence d)

section Steps

variable [DecidableEq C]

theorem Loaded.setConsumer (h : Loaded topology s) {pc : ConsumerPc} (hpc : Place topology s c pc) :
    Loaded topology (s.setConsumer c pc) := by
  refine h.mono (Int.le_refl _) (fun _ => Int.le_refl _) h.behind ?_ rfl
  intro d
  by_cases hd : d = c
  · subst hd
    right
    simp only [State.setConsumer, Function.update_self]
    exact hpc.mono (Int.le_refl _) fun _ => Int.le_refl _
  · exact .inl (Function.update_of_ne hd _ _)

theorem Loaded.setReturned (h : Loaded topology s) {q v : Int}
    (hv : Signal v ∨ q ≤ v ∧ Released topology s c v) : Loaded topology (s.setReturned c q v) := by
  have hidle : Loaded topology (s.setConsumer c .idle) := h.setConsumer trivial
  refine ⟨hidle.behind, hidle.place, ?_⟩
  intro d q' v' hmem
  by_cases hd : d = c
  · subst hd
    simp only [State.setReturned, Function.update_self, List.mem_append, List.mem_singleton,
      Prod.mk.injEq] at hmem
    rcases hmem with hmem | ⟨rfl, rfl⟩
    · exact h.returned d q' v' hmem
    · exact hv
  · simp only [State.setReturned, Function.update_of_ne hd] at hmem
    exact h.returned d q' v' hmem

theorem Loaded.pass (h : Loaded topology s) {call : Call} {v : Int} (hle : call.sequence ≤ v)
    (hv : v ≤ s.cursor) : Loaded topology (s.pass longMax topology c call v) := by
  simp only [State.pass]
  split
  · rename_i hnone
    apply h.setReturned
    refine .inr ⟨hle, hv, ?_⟩
    rw [hnone]
    intro d hd
    exact absurd hd List.not_mem_nil
  · rename_i hne
    apply h.setConsumer
    refine ⟨hne, Nat.zero_le _, ?_⟩
    intro i d hi
    exact absurd hi (Nat.not_lt_zero i)

variable [DecidableEq S]

omit [DecidableEq C] in
theorem Loaded.setMutex (h : Loaded topology s) (m : S) (o : Option (C ⊕ P)) : Loaded topology (s.setMutex m o) :=
  h.mono (Int.le_refl _) (fun _ => Int.le_refl _) h.behind (fun _ => .inl rfl) rfl

theorem Loaded.enter (h : Loaded topology s) {pc : ConsumerPc} (hs : s.enter topology c pc = some t)
    (hpc : Place topology s c pc) : Loaded topology t := by
  obtain ⟨_, rfl⟩ := Option.ite_none_right_eq_some.mp hs |>.imp_right Option.some.inj
  exact (h.setConsumer hpc).setMutex _ _

theorem Loaded.scan (h : Loaded topology s) {call : Call} {n : Nat} {m : Int}
    (hpc : s.consumer c = .scan call n m) (hs : s.go longMax topology c = some t) : Loaded topology t := by
  have hplace := h.place c
  rw [hpc] at hplace
  obtain ⟨hne, _, hm⟩ := hplace
  simp only [State.go, hpc] at hs
  split at hs
  · rename_i d hd
    cases hs
    apply h.setConsumer
    refine ⟨hne, (List.getElem?_eq_some_iff.mp hd).1, ?_⟩
    intro i e hi he
    rcases Nat.lt_succ_iff_lt_or_eq.mp hi with hi | rfl
    · have hle := hm i e hi he
      split <;> omega
    · obtain rfl : d = e := Option.some.inj (hd.symm.trans he)
      split <;> omega
  · rename_i hnone
    split at hs
    · cases hs
      exact h.setConsumer hne
    · rename_i hge
      cases hs
      have hall : ∀ d ∈ topology.dependents c, m ≤ s.sequence d := by
        intro d hd
        obtain ⟨i, hi, rfl⟩ := List.getElem_of_mem hd
        have hlen := List.getElem?_eq_none_iff.mp hnone
        exact hm i _ (by omega) (List.getElem?_eq_getElem hi)
      apply h.setReturned
      refine .inr ⟨Int.not_lt.mp hge, ?_, hall⟩
      obtain ⟨d, hd⟩ := List.exists_mem_of_ne_nil _ hne
      exact Int.le_trans (hall d hd) (h.behind d)

theorem Loaded.go (h : Loaded topology s) (hs : s.go longMax topology c = some t) : Loaded topology t := by
  have hplace := h.place c
  cases hpc : s.consumer c with
  | idle | blocked call =>
    simp only [State.go, hpc] at hs
    cases hs
  | load call =>
    simp only [State.go, hpc] at hs
    split at hs
    · cases hs
      exact h.setConsumer trivial
    · rename_i hge
      cases hs
      exact h.pass (Int.not_lt.mp hge) (Int.le_refl _)
  | lock call =>
    simp only [State.go, hpc] at hs
    exact h.enter hs trivial
  | test call =>
    simp only [State.go, hpc] at hs
    split at hs
    · cases hs
      exact h.setConsumer trivial
    · rename_i hge
      cases hs
      exact h.setConsumer ⟨Int.not_lt.mp hge, Int.le_refl _⟩
  | alerted call =>
    simp only [State.go, hpc] at hs
    split at hs
    · cases hs
      exact h.setConsumer (.inl rfl)
    · cases hs
      exact h.setConsumer trivial
  | wait call =>
    simp only [State.go, hpc] at hs
    cases hs
    apply Loaded.setMutex
    exact h.setConsumer trivial
  | woken call timedOut =>
    simp only [State.go, hpc] at hs
    cases timedOut with
    | false => exact h.enter hs trivial
    | true => exact h.enter hs (.inr rfl)
  | unlock call outcome =>
    rw [hpc] at hplace
    simp only [State.go, hpc] at hs
    cases hs
    cases outcome with
    | available v => exact (h.pass hplace.1 hplace.2).setMutex _ _
    | signal v => exact (h.setReturned (.inl hplace)).setMutex _ _
  | scan call n m => exact h.scan hpc hs
  | scanAlerted call =>
    rw [hpc] at hplace
    simp only [State.go, hpc] at hs
    split at hs
    · cases hs
      exact h.setReturned (.inl (.inl rfl))
    · cases hs
      apply h.setConsumer
      refine ⟨hplace, Nat.zero_le _, ?_⟩
      intro i d hi
      exact absurd hi (Nat.not_lt_zero i)

theorem Loaded.step [DecidableEq P] {a : Action C P} (h : Loaded topology s)
    (hs : Blocking.step longMax topology s a = some t) : Loaded topology t := by
  have hsame : ∀ d, s.sequence d ≤ s.sequence d := fun _ => Int.le_refl _
  cases a with
  | publish p delta =>
    obtain ⟨_, rfl⟩ := Option.ite_none_right_eq_some.mp hs |>.imp_right Option.some.inj
    have hle : s.cursor ≤ s.cursor + delta := by omega
    exact h.mono hle hsame (fun d => Int.le_trans (h.behind d) hle) (fun _ => .inl rfl) rfl
  | signal p | acquire p | release p =>
    obtain ⟨_, rfl⟩ := Option.ite_none_right_eq_some.mp hs |>.imp_right Option.some.inj
    exact h.mono (Int.le_refl _) hsame h.behind (fun _ => .inl rfl) rfl
  | notifyAll p =>
    obtain ⟨_, rfl⟩ := Option.ite_none_right_eq_some.mp hs |>.imp_right Option.some.inj
    refine h.mono (Int.le_refl _) hsame h.behind ?_ rfl
    intro c
    simp only
    split
    · cases hpc : s.consumer c with
      | blocked call => exact .inr trivial
      | _ => exact .inl rfl
    · exact .inl rfl
  | waitFor c call =>
    obtain ⟨_, rfl⟩ := Option.ite_none_right_eq_some.mp hs |>.imp_right Option.some.inj
    exact h.setConsumer trivial
  | go c => exact h.go hs
  | timeout c =>
    simp only [Blocking.step] at hs
    split at hs
    · obtain ⟨_, rfl⟩ := Option.ite_none_right_eq_some.mp hs |>.imp_right Option.some.inj
      exact h.setConsumer trivial
    · cases hs
  | spurious c =>
    simp only [Blocking.step] at hs
    split at hs
    · cases hs
      exact h.setConsumer trivial
    · cases hs
  | setAlerted c alert =>
    cases hs
    exact h.mono (Int.le_refl _) hsame h.behind (fun _ => .inl rfl) rfl
  | advance c sequence =>
    obtain ⟨⟨hle, hcursor⟩, rfl⟩ := Option.ite_none_right_eq_some.mp hs |>.imp_right Option.some.inj
    have hgrow : ∀ d, s.sequence d ≤ Function.update s.sequence c sequence d := by
      intro d
      by_cases hd : d = c
      · rw [hd, Function.update_self]
        exact hle
      · rw [Function.update_of_ne hd]
    refine h.mono (Int.le_refl _) hgrow ?_ (fun _ => .inl rfl) rfl
    intro d
    by_cases hd : d = c
    · simp only [hd, Function.update_self]
      exact hcursor
    · simp only [Function.update_of_ne hd]
      exact h.behind d

end Steps

theorem wait_for_returns [DecidableEq C] [DecidableEq P] [DecidableEq S]
    (h : (machine (P := P) longMax topology).Reachable s) {q v : Int} (hv : (q, v) ∈ s.returned c) :
    v = kAlertedSignal ∨ v = kTimeoutSignal ∨
      q ≤ v ∧ v ≤ s.cursor ∧ ∀ d ∈ topology.dependents c, v ≤ s.sequence d := by
  have hloaded : Loaded topology s :=
    h.invariant (P := fun s => Loaded topology s) Loaded.initial fun _ _ _ hi hs => hi.step hs
  rcases hloaded.returned c q v hv with hsignal | hreleased
  · exact hsignal.imp_right .inl
  · exact .inr (.inr hreleased)

/-- The second consumer asks for 0 and gets 1, which the first has reached. -/
theorem wait_for_returns_dependent : ∃ s : State Bool Unit Unit, (0, 1) ∈ s.returned true ∧
    ((1 : Int) = kAlertedSignal ∨ (1 : Int) = kTimeoutSignal ∨
      (0 : Int) ≤ 1 ∧ 1 ≤ s.cursor ∧ ∀ d ∈ [false], 1 ≤ s.sequence d) := by
  obtain ⟨s, hs, hv⟩ : ∃ s : State Bool Unit Unit,
      (machine 7 ⟨fun _ => (), (), fun c => if c then [false] else []⟩).exec .initial
        [.publish () 2, .advance false 1, .waitFor true ⟨0, false⟩, .go true, .go true, .go true] = some s ∧
      (0, 1) ∈ s.returned true := ⟨_, rfl, List.mem_cons_self⟩
  exact ⟨s, hv, wait_for_returns (c := true) (Machine.reachable_of_exec hs) hv⟩

end Dumbo.Disruptor.Blocking
