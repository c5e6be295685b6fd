import Dumbo.Disruptor.BlockingStrategy
import Dumbo.Lib.Owners

/-!
# Wake-ups of consumers that block

A consumer that waits in the strategy that the publishers signal is woken for every sequence that they publish.
One that waits in another strategy is not woken at all.
-/

namespace Dumbo.Disruptor.Blocking

open Transition

variable {C P S : Type} {longMax : Int} {topology : Topology C S} {s t : State C P S} {c : C} {p : P}

def ConsumerPc.locks : ConsumerPc → Bool
  | .test _ | .alerted _ | .wait _ | .unlock _ _ => true
  | _ => false

def PublisherPc.locks : PublisherPc → Bool
  | .notify | .unlock => true
  | _ => false

/-- The consumer has seen the cursor behind its sequence, and is going to wait or waits. -/
def ConsumerPc.sleeping : ConsumerPc → Option Call
  | .alerted call | .wait call | .blocked call => some call
  | _ => none

/-- The publisher has still to notify. -/
def PublisherPc.signals : PublisherPc → Bool
  | .lock | .notify => true
  | _ => false

def State.holds (topology : Topology C S) (s : State C P S) : C ⊕ P → Option S
  | .inl c => if (s.consumer c).locks then some (topology.strategy c) else none
  | .inr p => if (s.publisher p).locks then some topology.signalled else none

structure Inv (topology : Topology C S) (s : State C P S) : Prop where
  mutex : Owned s.mutex (s.holds topology)
  pending : ∀ c call, topology.strategy c = topology.signalled → (s.consumer c).sleeping = some call →
    s.cursor < call.sequence ∨ ∃ p, (s.publisher p).signals

theorem Inv.initial : Inv topology (.initial : State C P S) := by
  constructor
  · intro m o
    cases o with
    | inl c => simp [State.initial, State.holds, ConsumerPc.locks]
    | inr p => simp [State.initial, State.holds, PublisherPc.locks]
  · intro c call _ hsleeping
    cases hsleeping

/-! ### The mutex -/

/-- The consumer and the publisher that hold the mutex of one strategy exclude each other. -/
theorem Inv.apart (h : Inv topology s) (hc : (s.consumer c).locks)
    (hsignalled : topology.strategy c = topology.signalled) (hp : (s.publisher p).locks) : False := by
  have hholds : s.holds topology (.inl c) = some topology.signalled := by
    rw [State.holds, if_pos hc, hsignalled]
  have hholds' : s.holds topology (.inr p) = some topology.signalled := by
    rw [State.holds, if_pos hp]
  cases h.mutex.exclusive hholds hholds'

theorem State.holds_setConsumer [DecidableEq C] (topology : Topology C S) (s : State C P S) (c : C)
    (pc : ConsumerPc) [DecidableEq (C ⊕ P)] :
    (s.setConsumer c pc).holds topology = Function.update (s.holds topology) (.inl c)
      (if pc.locks then some (topology.strategy c) else none) := by
  funext o
  cases o with
  | inl d =>
    by_cases hd : d = c
    · subst hd
      simp only [holds, setConsumer, Function.update_self]
    · rw [Function.update_of_ne (by simpa using hd)]
      simp only [holds, setConsumer, Function.update_of_ne hd]
  | inr p =>
    rw [Function.update_of_ne (by simp)]
    rfl

theorem State.holds_setPublisher [DecidableEq P] (topology : Topology C S) (s : State C P S) (p : P)
    (pc : PublisherPc) [DecidableEq (C ⊕ P)] :
    (s.setPublisher p pc).holds topology = Function.update (s.holds topology) (.inr p)
      (if pc.locks then some topology.signalled else none) := by
  funext o
  cases o with
  | inl c =>
    rw [Function.update_of_ne (by simp)]
    rfl
  | inr q =>
    by_cases hq : q = p
    · subst hq
      simp only [holds, setPublisher, Function.update_self]
    · rw [Function.update_of_ne (by simpa using hq)]
      simp only [holds, setPublisher, Function.update_of_ne hq]

theorem Inv.consumer [DecidableEq C] (h : Inv topology s) {pc : ConsumerPc} {mutex : S → Option (C ⊕ P)}
    (hmutex : Owned mutex ((s.setConsumer c pc).holds topology))
    (hpc : ∀ call, topology.strategy c = topology.signalled → pc.sleeping = some call →
      (s.consumer c).sleeping = some call ∨ s.cursor < call.sequence) :
    Inv topology { s.setConsumer c pc with mutex := mutex } := by
  refine ⟨hmutex, ?_⟩
  intro d call hsignalled hsleeping
  by_cases hd : d = c
  · subst hd
    simp only [State.setConsumer, Function.update_self] at hsleeping
    rcases hpc call hsignalled hsleeping with hold | hlt
    · exact h.pending d call hsignalled hold
    · exact .inl hlt
  · simp only [State.setConsumer, Function.update_of_ne hd] at hsleeping
    exact h.pending d call hsignalled hsleeping

theorem Inv.publisher [DecidableEq P] (h : Inv topology s) {pc : PublisherPc} {mutex : S → Option (C ⊕ P)}
    (hmutex : Owned mutex ((s.setPublisher p pc).holds topology))
    (hpc : (s.publisher p).signals → pc.signals) :
    Inv topology { s.setPublisher p pc with mutex := mutex } := by
  refine ⟨hmutex, ?_⟩
  intro c call hsignalled hsleeping
  rcases h.pending c call hsignalled hsleeping with hlt | ⟨q, hq⟩
  · exact .inl hlt
  · right
    refine ⟨q, ?_⟩
    by_cases hqp : q = p
    · subst hqp
      simp only [State.setPublisher, Function.update_self]
      exact hpc hq
    · simp only [State.setPublisher, Function.update_of_ne hqp]
      exact hq

theorem Inv.samePublisher [DecidableEq P] (h : Inv topology s) (pc : PublisherPc) {pc' : PublisherPc}
    (hp : s.publisher p = pc') (hlocks : pc.locks = pc'.locks) :
    Owned s.mutex ((s.setPublisher p pc).holds topology) := by
  classical
  rw [State.holds_setPublisher, hlocks, ← hp]
  have hself : (if (s.publisher p).locks then some topology.signalled else none) =
      s.holds topology (.inr p) := rfl
  rw [hself, Function.update_eq_self]
  exact h.mutex

section Steps

variable [DecidableEq C] [DecidableEq P] [DecidableEq S]

omit [DecidableEq S] in
theorem Inv.move (h : Inv topology s) {pc : ConsumerPc} (hlocks : pc.locks = (s.consumer c).locks)
    (hpc : ∀ call, topology.strategy c = topology.signalled → pc.sleeping = some call →
      (s.consumer c).sleeping = some call ∨ s.cursor < call.sequence) :
    Inv topology (s.setConsumer c pc) := by
  have hmutex : Owned s.mutex ((s.setConsumer c pc).holds topology) := by
    rw [State.holds_setConsumer, hlocks]
    have hself : (if (s.consumer c).locks then some (topology.strategy c) else none) =
        s.holds topology (.inl c) := rfl
    rw [hself, Function.update_eq_self]
    exact h.mutex
  exact h.consumer hmutex hpc

theorem Inv.enter (h : Inv topology s) {pc : ConsumerPc} (hlocks : pc.locks = true)
    (hout : (s.consumer c).locks = false) (hawake : pc.sleeping = none)
    (hs : s.enter topology c pc = some t) : Inv topology t := by
  obtain ⟨hfree, rfl⟩ := Option.ite_none_right_eq_some.mp hs |>.imp_right Option.some.inj
  apply h.consumer
  · rw [State.holds_setConsumer, if_pos hlocks]
    apply h.mutex.acquire hfree
    rw [State.holds, hout]
    rfl
  · intro call _ hsleeping
    rw [hawake] at hsleeping
    cases hsleeping

theorem Inv.exit (h : Inv topology s) {pc : ConsumerPc} (hlocks : pc.locks = false)
    (hin : (s.consumer c).locks = true)
    (hpc : ∀ call, topology.strategy c = topology.signalled → pc.sleeping = some call →
      (s.consumer c).sleeping = some call ∨ s.cursor < call.sequence) :
    Inv topology ((s.setConsumer c pc).setMutex (topology.strategy c) none) := by
  apply h.consumer _ hpc
  rw [State.holds_setConsumer, hlocks]
  apply h.mutex.release
  rw [State.holds, if_pos hin]

omit [DecidableEq S] in
theorem Inv.pass (h : Inv topology s) (hout : (s.consumer c).locks = false) (call : Call) (value : Int) :
    Inv topology (s.pass longMax topology c call value) := by
  simp only [State.pass]
  split
  · have hidle : Inv topology (s.setConsumer c .idle) := h.move hout.symm (by simp [ConsumerPc.sleeping])
    exact ⟨hidle.mutex, hidle.pending⟩
  · exact h.move hout.symm (by simp [ConsumerPc.sleeping])

omit [DecidableEq S] in
theorem Inv.return (h : Inv topology s) (hout : (s.consumer c).locks = false) (q v : Int) :
    Inv topology (s.setReturned c q v) := by
  have hidle : Inv topology (s.setConsumer c .idle) := h.move hout.symm (by simp [ConsumerPc.sleeping])
  exact ⟨hidle.mutex, hidle.pending⟩

theorem Inv.unlock (h : Inv topology s) (hin : (s.consumer c).locks = true) (call : Call) (outcome : Outcome) :
    Inv topology ((s.leave longMax topology c call outcome).setMutex (topology.strategy c) none) := by
  have hidle : Inv topology ((s.setConsumer c .idle).setMutex (topology.strategy c) none) :=
    h.exit rfl hin (by simp [ConsumerPc.sleeping])
  cases outcome with
  | signal value => exact ⟨hidle.mutex, hidle.pending⟩
  | available value =>
    simp only [State.leave, State.pass]
    split
    · exact ⟨hidle.mutex, hidle.pending⟩
    · exact h.exit rfl hin (by simp [ConsumerPc.sleeping])

theorem Inv.go (h : Inv topology s) (hs : s.go longMax topology c = some t) : Inv topology t := by
  simp only [State.go] at hs
  cases hpc : s.consumer c with
  | idle | blocked call =>
    rw [hpc] at hs
    cases hs
  | load call =>
    simp only [hpc] at hs
    split at hs
    · cases hs
      exact h.move (by rw [hpc]; rfl) (by simp [ConsumerPc.sleeping])
    · cases hs
      exact h.pass (by rw [hpc]; rfl) call _
  | lock call =>
    simp only [hpc] at hs
    exact h.enter rfl (by rw [hpc]; rfl) rfl hs
  | test call =>
    simp only [hpc] at hs
    split at hs
    · rename_i hlt
      cases hs
      apply h.move (by rw [hpc]; rfl)
      intro call' _ hsleeping
      cases hsleeping
      exact .inr hlt
    · cases hs
      exact h.move (by rw [hpc]; rfl) (by simp [ConsumerPc.sleeping])
  | alerted call =>
    simp only [hpc] at hs
    split at hs
    · cases hs
      exact h.move (by rw [hpc]; rfl) (by simp [ConsumerPc.sleeping])
    · cases hs
      apply h.move (by rw [hpc]; rfl)
      intro call' _ hsleeping
      rw [hpc]
      exact .inl hsleeping
  | wait call =>
    simp only [hpc] at hs
    cases hs
    apply h.exit rfl (by rw [hpc]; rfl)
    intro call' _ hsleeping
    rw [hpc]
    exact .inl hsleeping
  | woken call timedOut =>
    simp only [hpc] at hs
    cases timedOut with
    | false => exact h.enter rfl (by rw [hpc]; rfl) rfl hs
    | true => exact h.enter rfl (by rw [hpc]; rfl) rfl hs
  | unlock call outcome =>
    simp only [hpc] at hs
    cases hs
    exact h.unlock (by rw [hpc]; rfl) call outcome
  | scan call next minimum =>
    simp only [hpc] at hs
    split at hs
    · cases hs
      exact h.move (by rw [hpc]; rfl) (by simp [ConsumerPc.sleeping])
    · split at hs
      · cases hs
        exact h.move (by rw [hpc]; rfl) (by simp [ConsumerPc.sleeping])
      · cases hs
        exact h.return (by rw [hpc]; rfl) _ _
  | scanAlerted call =>
    simp only [hpc] at hs
    split at hs
    · cases hs
      exact h.return (by rw [hpc]; rfl) _ _
    · cases hs
      exact h.move (by rw [hpc]; rfl) (by simp [ConsumerPc.sleeping])

omit [DecidableEq C] [DecidableEq P] [DecidableEq S] in
theorem ConsumerPc.notified_locks (pc : ConsumerPc) : pc.notified.locks = pc.locks := by
  cases pc <;> rfl

omit [DecidableEq C] in
theorem Inv.notifyAll (h : Inv topology s) (hp : s.publisher p = .notify) :
    Inv topology { s.setPublisher p .unlock with
      consumer := fun c =>
        if topology.strategy c = topology.signalled then (s.consumer c).notified else s.consumer c } := by
  refine ⟨?_, ?_⟩
  · have hpublisher := h.samePublisher .unlock hp rfl
    intro m o
    refine Iff.trans (hpublisher m o) ?_
    cases o with
    | inr q => rfl
    | inl c =>
      have hlocks : (if topology.strategy c = topology.signalled then (s.consumer c).notified
          else s.consumer c).locks = (s.consumer c).locks := by
        split
        · rw [ConsumerPc.notified_locks]
        · rfl
      show (if (s.consumer c).locks then some (topology.strategy c) else none) = some m ↔
        (if (if topology.strategy c = topology.signalled then (s.consumer c).notified
          else s.consumer c).locks then some (topology.strategy c) else none) = some m
      rw [hlocks]
  · intro c call hsignalled hsleeping
    exfalso
    have hlocked : (s.consumer c).locks = true := by
      simp only [if_pos hsignalled] at hsleeping
      cases hpc : s.consumer c <;> simp_all [ConsumerPc.notified, ConsumerPc.sleeping, ConsumerPc.locks]
    exact h.apart hlocked hsignalled (p := p) (by rw [hp]; rfl)

theorem Inv.step {a : Action C P} (h : Inv topology s) (hs : Blocking.step longMax topology s a = some t) :
    Inv topology t := by
  cases a with
  | publish p delta =>
    obtain ⟨hp, rfl⟩ := Option.ite_none_right_eq_some.mp hs |>.imp_right Option.some.inj
    refine ⟨?_, ?_⟩
    · exact h.samePublisher .lock hp rfl
    · intro c call _ _
      exact .inr ⟨p, by simp [State.setPublisher, PublisherPc.signals]⟩
  | signal p =>
    obtain ⟨hp, rfl⟩ := Option.ite_none_right_eq_some.mp hs |>.imp_right Option.some.inj
    have hstep := h.publisher (h.samePublisher .lock hp rfl) fun _ => rfl
    exact hstep
  | acquire p =>
    obtain ⟨⟨hp, hfree⟩, rfl⟩ := Option.ite_none_right_eq_some.mp hs |>.imp_right Option.some.inj
    apply h.publisher
    · rw [State.holds_setPublisher]
      apply h.mutex.acquire hfree
      rw [State.holds, hp]
      rfl
    · intro _
      rfl
  | notifyAll p =>
    obtain ⟨hp, rfl⟩ := Option.ite_none_right_eq_some.mp hs |>.imp_right Option.some.inj
    exact h.notifyAll hp
  | release p =>
    obtain ⟨hp, rfl⟩ := Option.ite_none_right_eq_some.mp hs |>.imp_right Option.some.inj
    apply h.publisher
    · rw [State.holds_setPublisher]
      apply h.mutex.release
      rw [State.holds, hp]
      rfl
    · rw [hp]
      intro hsignals
      cases hsignals
  | waitFor c call =>
    obtain ⟨hc, rfl⟩ := Option.ite_none_right_eq_some.mp hs |>.imp_right Option.some.inj
    exact h.move (by rw [hc]; rfl) (by simp [ConsumerPc.sleeping])
  | go c => exact h.go hs
  | timeout c =>
    simp only [Blocking.step] at hs
    split at hs
    · rename_i call hpc
      obtain ⟨_, rfl⟩ := Option.ite_none_right_eq_some.mp hs |>.imp_right Option.some.inj
      exact h.move (by rw [hpc]; rfl) (by simp [ConsumerPc.sleeping])
    · cases hs
  | spurious c =>
    simp only [Blocking.step] at hs
    split at hs
    · rename_i call hpc
      cases hs
      exact h.move (by rw [hpc]; rfl) (by simp [ConsumerPc.sleeping])
    · cases hs
  | setAlerted c alert =>
    cases hs
    exact ⟨h.mutex, h.pending⟩
  | advance c sequence =>
    obtain ⟨_, rfl⟩ := Option.ite_none_right_eq_some.mp hs |>.imp_right Option.some.inj
    exact ⟨h.mutex, h.pending⟩

theorem Inv.of_reachable (h : (machine (P := P) longMax topology).Reachable s) : Inv topology s :=
  h.invariant (P := fun s => Inv topology s) Inv.initial fun _ _ _ hi hs => hi.step hs

/-! ### Notified in the end -/

/-- The operations that calls under way consist of. -/
def Action.inCall : Action C P → Bool
  | .go _ | .acquire _ | .notifyAll _ | .release _ => true
  | _ => false

/-- Runs of calls under way. -/
def Leads (longMax : Int) (topology : Topology C S) (s t : State C P S) : Prop :=
  ∃ as : List (Action C P), (∀ a ∈ as, a.inCall) ∧ (machine longMax topology).exec s as = some t

theorem Leads.cons {u : State C P S} {a : Action C P} (ha : a.inCall)
    (hs : Blocking.step longMax topology s a = some u) (h : Leads longMax topology u t) :
    Leads longMax topology s t := by
  obtain ⟨as, has, hrun⟩ := h
  refine ⟨a :: as, ?_, Machine.exec_cons.mpr ⟨u, hs, hrun⟩⟩
  intro b hb
  rcases List.mem_cons.mp hb with rfl | hb
  · exact ha
  · exact has b hb

theorem Leads.refl (s : State C P S) : Leads longMax topology s s :=
  ⟨[], fun _ ha => absurd ha List.not_mem_nil, rfl⟩

theorem Leads.trans {u : State C P S} (h : Leads longMax topology s u) (h' : Leads longMax topology u t) :
    Leads longMax topology s t := by
  obtain ⟨as, has, hrun⟩ := h
  induction as generalizing s with
  | nil =>
    rw [Machine.exec, Option.some.injEq] at hrun
    exact hrun ▸ h'
  | cons a as ih =>
    obtain ⟨v, hv, hrun⟩ := Machine.exec_cons.mp hrun
    exact .cons (has a List.mem_cons_self) hv (ih (fun b hb => has b (List.mem_cons_of_mem a hb)) hrun)

/-- The consumer has left the mutex, and nobody else has moved. -/
structure Left (topology : Topology C S) (c : C) (s t : State C P S) : Prop where
  mutex : t.mutex (topology.strategy c) = none
  publisher : t.publisher = s.publisher
  consumer : ∀ d, d ≠ c → t.consumer d = s.consumer d

theorem leads_wait {call : Call} (hpc : s.consumer c = .wait call) :
    ∃ t, Leads longMax topology s t ∧ Left topology c s t := by
  refine ⟨(s.setConsumer c (.blocked call)).setMutex (topology.strategy c) none,
    .cons (a := .go c) rfl (by simp only [Blocking.step, State.go, hpc]) (.refl _), ?_, rfl, ?_⟩
  · exact Function.update_self _ _ _
  · intro d hd
    exact Function.update_of_ne hd _ _

theorem leads_unlock {call : Call} {outcome : Outcome} (hpc : s.consumer c = .unlock call outcome) :
    ∃ t, Leads longMax topology s t ∧ Left topology c s t := by
  have hleft : Left topology c s
      ((s.leave longMax topology c call outcome).setMutex (topology.strategy c) none) := by
    have hother : (s.leave longMax topology c call outcome).publisher = s.publisher ∧
        ∀ d, d ≠ c → (s.leave longMax topology c call outcome).consumer d = s.consumer d := by
      cases outcome with
      | signal value =>
        refine ⟨rfl, ?_⟩
        intro d hd
        exact Function.update_of_ne hd _ _
      | available value =>
        simp only [State.leave, State.pass]
        split
        · refine ⟨rfl, ?_⟩
          intro d hd
          exact Function.update_of_ne hd _ _
        · refine ⟨rfl, ?_⟩
          intro d hd
          exact Function.update_of_ne hd _ _
    exact ⟨Function.update_self _ _ _, hother.1, hother.2⟩
  exact ⟨_, .cons (a := .go c) rfl (by simp only [Blocking.step, State.go, hpc]) (.refl _), hleft⟩

theorem leads_under (pc : ConsumerPc) (hs : s.go longMax topology c = some (s.setConsumer c pc))
    (h : ∃ t, Leads longMax topology (s.setConsumer c pc) t ∧ Left topology c (s.setConsumer c pc) t) :
    ∃ t, Leads longMax topology s t ∧ Left topology c s t := by
  obtain ⟨t, hleads, hmutex, hpublisher, hconsumer⟩ := h
  refine ⟨t, .cons (a := .go c) rfl hs hleads, hmutex, hpublisher, ?_⟩
  intro d hd
  rw [hconsumer d hd]
  exact Function.update_of_ne hd _ _

theorem leads_alerted {call : Call} (hpc : s.consumer c = .alerted call) :
    ∃ t, Leads longMax topology s t ∧ Left topology c s t := by
  by_cases halerted : s.alerted c
  · apply leads_under (.unlock call (.signal kAlertedSignal))
    · simp only [State.go, hpc, if_pos halerted]
    · exact leads_unlock (Function.update_self _ _ _)
  · apply leads_under (.wait call)
    · simp only [State.go, hpc, if_neg halerted]
    · exact leads_wait (Function.update_self _ _ _)

theorem leads_left (hlocks : (s.consumer c).locks) :
    ∃ t, Leads longMax topology s t ∧ Left topology c s t := by
  cases hpc : s.consumer c with
  | test call =>
    by_cases hlt : s.cursor < call.sequence
    · apply leads_under (.alerted call)
      · simp only [State.go, hpc, if_pos hlt]
      · exact leads_alerted (Function.update_self _ _ _)
    · apply leads_under (.unlock call (.available s.cursor))
      · simp only [State.go, hpc, if_neg hlt]
      · exact leads_unlock (Function.update_self _ _ _)
  | alerted call => exact leads_alerted hpc
  | wait call => exact leads_wait hpc
  | unlock call outcome => exact leads_unlock hpc
  | _ =>
    rw [hpc] at hlocks
    cases hlocks

/-- The publisher notifies, and the consumer leaves the condition variable. -/
theorem leads_woken {call : Call} (hsignalled : topology.strategy c = topology.signalled)
    (hc : s.consumer c = .blocked call) (hp : s.publisher p = .notify) :
    ∃ t, Leads longMax topology s t ∧ t.consumer c = .woken call false := by
  refine ⟨_, .cons (a := .notifyAll p) rfl (if_pos hp) (.refl _), ?_⟩
  show (if topology.strategy c = topology.signalled then (s.consumer c).notified else s.consumer c) = _
  rw [if_pos hsignalled, hc]
  rfl

theorem leads_acquire {call : Call} (hsignalled : topology.strategy c = topology.signalled)
    (hc : s.consumer c = .blocked call) (hp : s.publisher p = .lock)
    (hfree : s.mutex topology.signalled = none) :
    ∃ t, Leads longMax topology s t ∧ t.consumer c = .woken call false := by
  obtain ⟨t, hleads, ht⟩ := leads_woken (p := p)
    (s := (s.setPublisher p .notify).setMutex topology.signalled (some (.inr p))) hsignalled hc
    (Function.update_self _ _ _)
  exact ⟨t, .cons (a := .acquire p) rfl (if_pos ⟨hp, hfree⟩) hleads, ht⟩

/-- A consumer that sleeps on a published sequence: the calls under way wake it. -/
theorem Inv.wakes (h : Inv topology s) {call : Call} (hsignalled : topology.strategy c = topology.signalled)
    (hc : s.consumer c = .blocked call) (hle : call.sequence ≤ s.cursor) :
    ∃ t, Leads longMax topology s t ∧ t.consumer c = .woken call false := by
  rcases h.pending c call hsignalled (by rw [hc]; rfl) with hlt | ⟨p, hp⟩
  · omega
  cases hpc : s.publisher p with
  | notify => exact leads_woken hsignalled hc hpc
  | lock =>
    cases howner : s.mutex topology.signalled with
    | none => exact leads_acquire hsignalled hc hpc howner
    | some o =>
      have hholds := (h.mutex _ o).mp howner
      cases o with
      | inl d =>
        obtain ⟨hlocks, hd⟩ := Option.ite_none_right_eq_some.mp hholds |>.imp_right Option.some.inj
        have hne : c ≠ d := by
          rintro rfl
          rw [hc] at hlocks
          cases hlocks
        have hleaves : ∃ u, Leads longMax topology s u ∧ Left topology d s u := leads_left hlocks
        obtain ⟨u, hleads, hleft⟩ := hleaves
        obtain ⟨t, hleads', ht⟩ := leads_acquire (s := u) (p := p) hsignalled
          (by rw [hleft.consumer c hne, hc]) (by rw [hleft.publisher, hpc]) (by rw [← hd, hleft.mutex])
        exact ⟨t, hleads.trans hleads', ht⟩
      | inr q =>
        obtain ⟨hlocks, _⟩ := Option.ite_none_right_eq_some.mp hholds
        cases hq : s.publisher q with
        | notify => exact leads_woken hsignalled hc hq
        | unlock =>
          have hne : p ≠ q := by
            rintro rfl
            rw [hpc] at hq
            cases hq
          obtain ⟨t, hleads, ht⟩ := leads_acquire (p := p)
            (s := (s.setPublisher q .idle).setMutex topology.signalled none) hsignalled hc
            ((Function.update_of_ne hne _ _).trans hpc) (Function.update_self _ _ _)
          exact ⟨t, .cons (a := .release q) rfl (if_pos hq) hleads, ht⟩
        | _ =>
          rw [hq] at hlocks
          cases hlocks
  | _ =>
    rw [hpc] at hp
    cases hp

/-- A consumer that sleeps on a published sequence: a publisher has still to notify, and the calls under way
lead to its being woken. -/
theorem blocking_no_lost_wakeup (h : (machine (P := P) longMax topology).Reachable s) {call : Call}
    (hsignalled : topology.strategy c = topology.signalled) (hc : s.consumer c = .blocked call)
    (hle : call.sequence ≤ s.cursor) :
    (∃ p, s.publisher p = .lock ∨ s.publisher p = .notify) ∧
      ∃ t, Leads longMax topology s t ∧ t.consumer c = .woken call false := by
  have hinv := Inv.of_reachable h
  refine ⟨?_, hinv.wakes hsignalled hc hle⟩
  rcases hinv.pending c call hsignalled (by rw [hc]; rfl) with hlt | ⟨p, hp⟩
  · omega
  · refine ⟨p, ?_⟩
    cases hpc : s.publisher p with
    | lock => exact .inl rfl
    | notify => exact .inr rfl
    | _ =>
      rw [hpc] at hp
      cases hp

/-- A consumer has gone to sleep on sequence 0. -/
def sleep : List (Action Unit Unit) := .waitFor () ⟨0, false⟩ :: List.replicate 5 (.go ())

theorem blocking_no_lost_wakeup_published : ∃ s : State Unit Unit Unit,
    s.consumer () = .blocked ⟨0, false⟩ ∧ s.cursor = 0 ∧
      (∃ p, s.publisher p = .lock ∨ s.publisher p = .notify) ∧
        ∃ t, Leads 0 ⟨fun _ => (), (), fun _ => []⟩ s t ∧ t.consumer () = .woken ⟨0, false⟩ false := by
  obtain ⟨s, hs, hc, hcursor⟩ : ∃ s : State Unit Unit Unit,
      (machine 0 ⟨fun _ => (), (), fun _ => []⟩).exec .initial (sleep ++ [.publish () 1]) = some s ∧
        s.consumer () = .blocked ⟨0, false⟩ ∧ s.cursor = 0 := ⟨_, rfl, rfl, rfl⟩
  exact ⟨s, hc, hcursor, blocking_no_lost_wakeup (Machine.reachable_of_exec hs) rfl hc (by rw [hcursor])⟩

/-! ### Never notified -/

/-- The consumer that an action is of. -/
def Action.consumer : Action C P → Option C
  | .waitFor c _ | .go c | .timeout c | .spurious c | .setAlerted c _ | .advance c _ => some c
  | .publish _ _ | .signal _ | .acquire _ | .notifyAll _ | .release _ => none

omit [DecidableEq P] in
theorem go_other (hs : s.go longMax topology c = some t) {d : C} (hd : d ≠ c) :
    t.consumer d = s.consumer d := by
  have hpass : ∀ call v, (s.pass longMax topology c call v).consumer d = s.consumer d := by
    intro call v
    simp only [State.pass]
    split
    · exact Function.update_of_ne hd _ _
    · exact Function.update_of_ne hd _ _
  simp only [State.go] at hs
  cases hpc : s.consumer c with
  | idle | blocked call =>
    rw [hpc] at hs
    cases hs
  | load call =>
    simp only [hpc] at hs
    split at hs
    · cases hs
      exact Function.update_of_ne hd _ _
    · cases hs
      exact hpass call _
  | lock call =>
    simp only [hpc] at hs
    obtain ⟨_, rfl⟩ := Option.ite_none_right_eq_some.mp hs |>.imp_right Option.some.inj
    exact Function.update_of_ne hd _ _
  | test call | alerted call =>
    simp only [hpc] at hs
    split at hs
    · cases hs
      exact Function.update_of_ne hd _ _
    · cases hs
      exact Function.update_of_ne hd _ _
  | wait call =>
    simp only [hpc] at hs
    cases hs
    exact Function.update_of_ne hd _ _
  | woken call timedOut =>
    simp only [hpc] at hs
    obtain ⟨_, rfl⟩ := Option.ite_none_right_eq_some.mp hs |>.imp_right Option.some.inj
    exact Function.update_of_ne hd _ _
  | unlock call outcome =>
    simp only [hpc] at hs
    cases hs
    cases outcome with
    | available v => exact hpass call v
    | signal v => exact Function.update_of_ne hd _ _
  | scan call next minimum =>
    simp only [hpc] at hs
    split at hs
    · cases hs
      exact Function.update_of_ne hd _ _
    · split at hs
      · cases hs
        exact Function.update_of_ne hd _ _
      · cases hs
        exact Function.update_of_ne hd _ _
  | scanAlerted call =>
    simp only [hpc] at hs
    split at hs
    · cases hs
      exact Function.update_of_ne hd _ _
    · cases hs
      exact Function.update_of_ne hd _ _

/-- What others do to a consumer: a publisher that notifies wakes it, if it waits in the signalled strategy. -/
theorem step_other {a : Action C P} (ha : a.consumer ≠ some c) (hs : step longMax topology s a = some t) :
    t.consumer c = s.consumer c ∨
      topology.strategy c = topology.signalled ∧ t.consumer c = (s.consumer c).notified := by
  cases a with
  | publish p delta | signal p | acquire p | release p | advance d sequence =>
    obtain ⟨_, rfl⟩ := Option.ite_none_right_eq_some.mp hs |>.imp_right Option.some.inj
    exact .inl rfl
  | notifyAll p =>
    obtain ⟨_, rfl⟩ := Option.ite_none_right_eq_some.mp hs |>.imp_right Option.some.inj
    by_cases hsignalled : topology.strategy c = topology.signalled
    · exact .inr ⟨hsignalled, if_pos hsignalled⟩
    · exact .inl (if_neg hsignalled)
  | setAlerted d alert =>
    cases hs
    exact .inl rfl
  | waitFor d call =>
    obtain ⟨_, rfl⟩ := Option.ite_none_right_eq_some.mp hs |>.imp_right Option.some.inj
    left
    apply Function.update_of_ne
    rintro rfl
    exact ha rfl
  | go d =>
    left
    apply go_other hs
    rintro rfl
    exact ha rfl
  | timeout d | spurious d =>
    have hne : c ≠ d := by
      rintro rfl
      exact ha rfl
    simp only [step] at hs
    split at hs
    · first
      | cases hs
      | obtain ⟨_, rfl⟩ := Option.ite_none_right_eq_some.mp hs |>.imp_right Option.some.inj
      exact .inl (Function.update_of_ne hne _ _)
    · cases hs

/-- A consumer in another strategy than the signalled one. -/
theorem blocked_apart {call : Call} {a : Action C P} (hother : topology.strategy c ≠ topology.signalled)
    (hquiet : a ≠ .timeout c ∧ a ≠ .spurious c) (hc : s.consumer c = .blocked call)
    (hs : step longMax topology s a = some t) : t.consumer c = .blocked call := by
  by_cases ha : a.consumer = some c
  · cases a with
    | publish p delta | signal p | acquire p | notifyAll p | release p => cases ha
    | setAlerted d alert =>
      cases hs
      exact hc
    | advance d sequence =>
      obtain ⟨_, rfl⟩ := Option.ite_none_right_eq_some.mp hs |>.imp_right Option.some.inj
      exact hc
    | waitFor d call' =>
      obtain rfl := Option.some.inj ha
      obtain ⟨hidle, _⟩ := Option.ite_none_right_eq_some.mp hs
      rw [hc] at hidle
      cases hidle
    | go d =>
      obtain rfl := Option.some.inj ha
      simp only [step, State.go, hc] at hs
      cases hs
    | timeout d =>
      obtain rfl := Option.some.inj ha
      exact absurd rfl hquiet.1
    | spurious d =>
      obtain rfl := Option.some.inj ha
      exact absurd rfl hquiet.2
  · rcases step_other ha hs with hsame | ⟨hsignalled, _⟩
    · rw [hsame, hc]
    · exact absurd hsignalled hother

end Steps

end Dumbo.Disruptor.Blocking
