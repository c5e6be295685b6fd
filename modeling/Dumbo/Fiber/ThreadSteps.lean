import Dumbo.Fiber.ThreadInvariant

/-!
# The steps of threads that share their work
-/

namespace Dumbo.Fiber.Threads

open Transition
open Scheduler (TimePoint timeMax Launch)

variable {T : Type} {algo : Algo} {s s' : State T} {place : CtxId T → Place T} {t u : T} {c d : CtxId T}
  {p : Place T}

theorem Inv.othersSettled (h : Inv algo s place) (hlive : (s.thread t).pc ≠ .destroyed) (c : CtxId T) :
    OthersSettled algo s place t c := by
  refine ⟨fun u _ => h.thread u, fun d _ => ⟨(h.settled d).1, fun u hplace => ?_⟩⟩
  have hpc := (h.settled d).2 u hplace
  refine ⟨?_, hpc⟩
  rintro rfl
  exact hlive hpc

theorem OthersSettled.inv (h : OthersSettled algo s place t c) (hplaced : Placed s place)
    (ht : ThreadOk algo place t (s.thread t))
    (hc : place c ≠ .detached ∧ ∀ u, place c ≠ .attached u false .running) (hfault : s.fault = none) :
    Inv algo s place := by
  refine ⟨hplaced, fun u => ?_, fun d => ?_, hfault⟩
  · by_cases hu : u = t
    · rwa [hu]
    · exact h.others u hu
  · by_cases hd : d = c
    · rw [hd]
      exact ⟨hc.1, fun u hrunning => absurd hrunning (hc.2 u)⟩
    · exact ⟨(h.settled d hd).1, fun u hrunning => ((h.settled d hd).2 u hrunning).2⟩

theorem Inv.pc (h : Inv algo s place) {pc : ThreadPc T} (hpc : (s.thread t).pc = pc) :
    PcOk algo place t (s.thread t).active pc := hpc ▸ (h.thread t).pc

theorem Placed.active_ne (h : Placed s place) (hc : ∀ standing, place c ≠ .attached t true standing) :
    (s.thread t).active ≠ c := by
  rintro rfl
  obtain ⟨standing, hactive⟩ := h.of_active t
  exact hc standing hactive

theorem PcOk.next {active : CtxId T} {next : Next} (h : PcOk algo place t active (.pushing c next)) :
    PcOk algo place t active next.pc := by
  cases next <;> exact h

theorem owner_ne (hp : p.owner = some t) (hu : u ≠ t) : p.owner ≠ some u := by
  rw [hp]
  exact fun hut => hu (Option.some.inj hut).symm

theorem Inv.dispatcher_running (h : Inv algo s place) (hactive : (s.thread t).active = .dispatcher t) :
    place (.dispatcher t) = .attached t true .running := by
  obtain ⟨standing, hplace⟩ := h.placed.of_active t
  rw [hactive] at hplace
  obtain ⟨-, rfl⟩ := h.placed.allowed hplace
  exact hplace

theorem Inv.running (h : Inv algo s place) (huser : s.InUser t) :
    place (s.thread t).active = .attached t true .running := h.pc huser.1

theorem State.InUser.live (huser : s.InUser t) : (s.thread t).pc ≠ .destroyed := by
  rw [huser.1]
  simp

section Steps

variable [DecidableEq T]

theorem Inv.holding (h : Inv algo s place) (hlive : (s.thread t).pc ≠ .destroyed)
    (hplaced : Placed s' (Function.update place c (.attached t false .running)))
    (hsame : ∀ u, u ≠ t → (s'.thread u).Same (s.thread u))
    (hactive : (s'.thread t).active = (s.thread t).active)
    (hshutdown : (s'.thread t).shutdown = (s.thread t).shutdown) (htaken : (s'.thread t).pc.taken = none)
    (hfault : s'.fault = none) (hc : ∀ u, u ≠ t → (place c).owner ≠ some u)
    (hmain : ∀ a, place c ≠ .attached t a (.hooked .dispatcher)) :
    Holding algo s' (Function.update place c (.attached t false .running)) t c := by
  refine { (h.othersSettled hlive c).move hsame hc fun u hu => owner_ne rfl hu with
    placed := hplaced
    held := Function.update_self _ _ _
    dispatcher := fun hne => ?_
    joining := fun hdown => ?_
    taken := htaken
    fault := hfault }
  · rw [Function.update_of_ne (Ne.symm hne), hactive]
    exact (h.thread t).dispatcher hlive
  · rw [hshutdown] at hdown
    obtain ⟨a, hplace⟩ := (h.thread t).joining hdown hlive
    refine ⟨a, ?_⟩
    rw [Function.update_of_ne, hplace]
    rintro rfl
    exact hmain a hplace

theorem ThreadOk.worker {x : Thread T} (h : ThreadOk algo place t x) {n : Nat} (hne : x.active ≠ .worker n)
    (hlive : x.pc ≠ .destroyed) {pc : ThreadPc T} (hpc : PcOk algo place t x.active pc)
    (hpc' : pc ≠ .destroyed) :
    ThreadOk algo (Function.update place (.worker n) p) t { x with pc := pc } := by
  have hdispatcher : CtxId.dispatcher t ≠ .worker n := by simp
  have hmain : CtxId.main t ≠ .worker n := by simp
  refine ⟨hpc.move hne hpc', fun _ => ?_, fun hdown _ => ?_⟩
  · rw [Function.update_of_ne hdispatcher]
    exact h.dispatcher hlive
  · rw [Function.update_of_ne hmain]
    exact h.joining hdown hlive

theorem Inv.goto (h : Inv algo s place) (hlive : (s.thread t).pc ≠ .destroyed) {pc : ThreadPc T}
    (htaken : pc.taken = (s.thread t).pc.taken) (hpc : PcOk algo place t (s.thread t).active pc) :
    Inv algo (s.setPc t pc) place := by
  refine ⟨h.placed.setPc htaken, fun u => ?_, fun d => ⟨(h.settled d).1, fun u hplace => ?_⟩, h.fault⟩
  · by_cases hu : u = t
    · subst hu
      rw [setPc_thread]
      exact ⟨hpc, fun _ => (h.thread u).dispatcher hlive, fun hdown _ => (h.thread u).joining hdown hlive⟩
    · exact (h.thread u).congr (setPc_same _ _ hu)
  · have hgone := (h.settled d).2 u hplace
    have hu : u ≠ t := by
      rintro rfl
      exact hlive hgone
    exact (setPc_same _ _ hu).2.1.trans hgone

/-! ### Operations on the queues of ready workers -/

theorem Inv.pop (h : Inv algo s place) {r : Option (CtxId T)} (hlive : (s.thread t).pc ≠ .destroyed)
    (hnone : (s.thread t).pc.taken = none) (hr : PcOk algo place t (s.thread t).active (.picking r))
    {q : Option T} {rest : List (CtxId T)} (hq : s.rqueue q = c :: rest) :
    Inv algo (s.pop t q c rest r) (Function.update place c (.taken t)) := by
  obtain ⟨hc, hpop⟩ := h.placed.pop hq
  have hne : (s.thread t).active ≠ c := h.placed.active_ne (by rw [hc]; simp)
  have hallowed := h.placed.allowed hc
  cases c with
  | main v | dispatcher v => cases hallowed
  | worker n =>
    have hplaced := hpop.take (t := t) (.attaching (.worker n) r) (Function.update_self _ _ _) rfl hnone
    rw [Function.update_idem] at hplaced
    have hrest : OthersSettled algo (s.pop t q (.worker n) rest r)
        (Function.update place (.worker n) (.taken t)) t (.worker n) := (h.othersSettled hlive (.worker n)).move
      (fun u hu => setPc_same _ _ hu) (fun u _ => by rw [hc]; exact Place.unowned rfl u)
      fun u hu => owner_ne rfl hu
    apply hrest.inv hplaced _ _ h.fault
    · rw [State.pop, setPc_thread]
      exact (h.thread t).worker hne hlive (by cases r <;> exact hr) (by simp)
    · rw [Function.update_self]
      exact ⟨by simp, by simp⟩

theorem Inv.push (h : Inv algo s place) {next : Next} (hpc : (s.thread t).pc = .pushing c next)
    (q : Option T) :
    Inv algo ((s.setQueue q (s.rqueue q ++ [c])).setPc t next.pc) (Function.update place c (.queued q)) := by
  have htaken : (s.thread t).pc.taken = some c := by
    rw [hpc]
    rfl
  have hc := h.placed.of_taken htaken
  have hlive : (s.thread t).pc ≠ .destroyed := by
    rw [hpc]
    simp
  have hne : (s.thread t).active ≠ c := h.placed.active_ne (by rw [hc]; simp)
  have hallowed := h.placed.allowed hc
  cases c with
  | main v | dispatcher v => cases hallowed
  | worker n =>
    have hplaced := (h.placed.untake next.pc htaken next.taken).push q (Function.update_self _ _ _)
    rw [Function.update_idem] at hplaced
    have hrest : OthersSettled algo ((s.setQueue q (s.rqueue q ++ [CtxId.worker n])).setPc t next.pc)
        (Function.update place (.worker n) (.queued q)) t (.worker n) := (h.othersSettled hlive (.worker n)).move
      (fun u hu => setPc_same _ _ hu) (fun u hu => by rw [hc]; exact owner_ne rfl hu)
      fun u _ => Place.unowned rfl u
    apply hrest.inv hplaced _ _ h.fault
    · rw [setPc_thread]
      exact (h.thread t).worker hne hlive (h.pc hpc).next (by cases next <;> simp [Next.pc])
    · rw [Function.update_self]
      exact ⟨by simp, by simp⟩

variable [Fintype T]

/-! ### The switch -/

theorem Holding.resume (h : Holding algo s place t c) {r : Option (CtxId T)}
    (hr : PcOk algo place t (s.thread t).active (.picking r)) :
    ∃ place', Inv algo (s.resume t c r) place' := by
  cases r with
  | none =>
    obtain ⟨standing, hstanding, hactive⟩ := hr
    exact ⟨_, h.resume_waits hstanding hactive⟩
  | some r =>
    obtain ⟨rfl, hactive⟩ := hr
    exact ⟨_, h.resume_ready hactive⟩

theorem Inv.attaching (h : Inv algo s place) {r : Option (CtxId T)} (hpc : (s.thread t).pc = .attaching c r) :
    ∃ place', Inv algo (((s.setPc t .user).attach t c).resume t c r) place' := by
  have htaken : (s.thread t).pc.taken = some c := by
    rw [hpc]
    rfl
  have hc := h.placed.of_taken htaken
  have hlive : (s.thread t).pc ≠ .destroyed := by
    rw [hpc]
    simp
  have hne : (s.thread t).active ≠ c := h.placed.active_ne (by rw [hc]; simp)
  have hfree := h.placed.untake .user htaken rfl
  have hattach := hfree.attach (t := t) (Function.update_self _ _ _)
  rw [Function.update_idem] at hattach
  rw [hfree.attach_eq (Function.update_self _ _ _)]
  have hholds := h.holding hlive hattach (fun u hu => ?_) ?_ ?_ ?_ h.fault (fun u hu => ?_) (fun a => ?_)
  · apply hholds.resume
    have hok : PcOk algo place t (s.thread t).active (.picking r) := by
      have hattaching := h.pc hpc
      cases r <;> exact hattaching
    have hkeep := hok.move (c := c) (p := .attached t false .running) hne (by simp)
    simpa [State.workerLink, State.setScheduler, State.setPc] using hkeep
  · rw [State.workerLink, setThread_of_ne _ _ hu]
    exact setPc_same s _ hu
  · simp [State.workerLink, State.setScheduler, State.setPc]
  · simp [State.workerLink, State.setScheduler, State.setPc]
  · simp [State.workerLink, State.setScheduler, State.setPc, ThreadPc.taken]
  · rw [hc]
    exact owner_ne rfl hu
  · rw [hc]
    simp

omit [Fintype T] in
theorem Inv.pickNull (h : Inv algo s place) (hlive : (s.thread t).pc ≠ .destroyed)
    (hnone : (s.thread t).pc.taken = none) (hactive : (s.thread t).active = .dispatcher t)
    (hother : algo = .workStealing → ∃ v, v ≠ t) : Inv algo (s.pickNull t) place := by
  rw [State.pickNull, if_pos hactive]
  exact h.goto hlive hnone.symm ⟨hactive, hother⟩

theorem Inv.pickLocal (h : Inv algo s place) {r : Option (CtxId T)} (hpc : (s.thread t).pc = .picking r) :
    ∃ place', Inv algo (s.pickLocal algo t r) place' := by
  have hlive : (s.thread t).pc ≠ .destroyed := by
    rw [hpc]
    simp
  have hnone : (s.thread t).pc.taken = none := by
    rw [hpc]
    rfl
  have hok := h.pc hpc
  rw [State.pickLocal]
  split
  · rename_i c rest hq
    obtain ⟨hc, hplaced⟩ := h.placed.dequeue hq
    have hne : (s.thread t).active ≠ c := h.placed.active_ne (by rw [hc]; simp)
    have hholds := h.holding hlive hplaced (fun u hu => ?_) ?_ ?_ ?_ h.fault (fun u hu => ?_) (fun a => ?_)
    · apply hholds.resume
      rw [setThread_self]
      exact hok.move hne (by simp)
    · rw [setThread_of_ne _ _ hu]
      exact ⟨rfl, rfl, rfl⟩
    · rw [setThread_self]
    · rw [setThread_self]
    · rw [setThread_self]
      exact hnone
    · rw [hc]
      exact owner_ne rfl hu
    · rw [hc]
      simp
  · rename_i hq
    have hactive : (s.thread t).active = .dispatcher t := by
      refine ((h.thread t).dispatcher hlive).resolve_left fun hready => ?_
      have hmem : CtxId.dispatcher t ∈ (s.thread t).lqueue := by
        have hlocal := congrArg Local.ready (h.placed.own_eq hready rfl)
        exact hlocal.mpr trivial
      rw [hq] at hmem
      cases hmem
    split
    · rename_i hsteals
      have hrunning := h.dispatcher_running hactive
      rw [← hactive] at hrunning
      have hr : r = some (s.thread t).active := by
        cases r with
        | none =>
          obtain ⟨standing, hstanding, hplace⟩ := hok
          cases hrunning.symm.trans hplace
          exact absurd rfl hstanding
        | some r => exact congrArg some hok.1
      exact ⟨place, h.goto hlive hnone.symm ⟨hsteals, hactive, hr, hrunning⟩⟩
    · rename_i hshares
      exact ⟨place, h.pickNull hlive hnone hactive fun hsteals => absurd hsteals hshares⟩

theorem Inv.pickNext (h : Inv algo s place) {r : Option (CtxId T)} (hpc : (s.thread t).pc = .picking r) :
    ∃ place', Inv algo (s.pickNext algo t r) place' := by
  rw [State.pickNext]
  split
  · rename_i c rest hq
    exact ⟨_, h.pop (by rw [hpc]; simp) (by rw [hpc]; rfl) (h.pc hpc) hq⟩
  · exact h.pickLocal hpc

omit [Fintype T] in
theorem Inv.steal (h : Inv algo s place) {r : Option (CtxId T)} (hpc : (s.thread t).pc = .stealing r)
    {victim : T} (hvictim : victim ≠ t) (lost : Bool) (hthere : (s.thread victim).pc ≠ .destroyed) :
    ∃ place', Inv algo (s.steal t victim lost r) place' := by
  have hlive : (s.thread t).pc ≠ .destroyed := by
    rw [hpc]
    simp
  have hnone : (s.thread t).pc.taken = none := by
    rw [hpc]
    rfl
  obtain ⟨-, hactive, rfl, hrunning⟩ := h.pc hpc
  have hnull : ∃ place', Inv algo (s.pickNull t) place' :=
    ⟨place, h.pickNull hlive hnone hactive fun _ => ⟨victim, hvictim⟩⟩
  rw [State.steal, if_neg hthere]
  split
  · exact hnull
  · split
    · rename_i c rest hq
      have hr : PcOk algo place t (s.thread t).active (.picking (some (s.thread t).active)) := ⟨rfl, hrunning⟩
      exact ⟨_, h.pop hlive hnone hr hq⟩
    · exact hnull

/-! ### The queue of sleeping contexts -/

theorem Inv.sleep2ready (h : Inv algo s place) {now : TimePoint} (hpc : (s.thread t).pc = .expiring now) :
    ∃ place', Inv algo (s.sleep2ready t now) place' := by
  have hlive : (s.thread t).pc ≠ .destroyed := by
    rw [hpc]
    simp
  have hactive : (s.thread t).active = .dispatcher t := h.pc hpc
  have hdispatcher := h.dispatcher_running hactive
  have hdone : Inv algo (s.setPc t (.picking (some (.dispatcher t)))) place := by
    apply h.goto hlive (by rw [hpc]; rfl)
    exact ⟨hactive.symm, hactive ▸ hdispatcher⟩
  rw [State.sleep2ready]
  split
  · exact ⟨place, hdone⟩
  · rename_i c rest hq
    obtain ⟨a, hc⟩ := h.placed.of_sleeping (t := t) (c := c) (by rw [hq]; exact List.mem_cons_self)
    have hne : c ≠ .dispatcher t := by
      rintro rfl
      cases hc.symm.trans hdispatcher
    have ha : a = false := by
      cases a with
      | false => rfl
      | true => exact absurd ((h.placed.attached_active hc).mp rfl) (hactive ▸ Ne.symm hne)
    subst ha
    have hasleep : c ≠ .dispatcher t ∧ s.terminated c = false ∧ ¬ s.ReadyLinked c :=
      ⟨hne, h.placed.terminated_eq hc (by simp [Place.shared]), h.placed.not_readyLinked (by rw [hc]; simp)⟩
    simp only [State.require_pos hasleep]
    split
    · have hplaced := h.placed.sleepPop hq hc (Function.update s.tp c timeMax)
      have hholds := h.holding hlive hplaced (fun u hu => ?_) ?_ ?_ ?_ h.fault (fun u hu => ?_) (fun a => ?_)
      · refine ⟨_, hholds.ready (.expiring now) ?_⟩
        rw [setThread_self]
        exact hactive
      · rw [setThread_of_ne _ _ hu]
        exact ⟨rfl, rfl, rfl⟩
      · rw [setThread_self]
      · rw [setThread_self]
      · rw [setThread_self, hpc]
        rfl
      · rw [hc]
        exact owner_ne rfl hu
      · rw [hc]
        simp
    · exact ⟨place, hdone⟩

theorem Inv.go (h : Inv algo s place) (hs : s.go algo t = some s') : ∃ place', Inv algo s' place' := by
  rw [State.go] at hs
  split at hs
  · cases hs
  · cases hs
  · cases hs
  · cases hs
  · rename_i r hpc
    cases hs
    exact h.pickNext hpc
  · rename_i c r hpc
    cases hs
    exact h.attaching hpc
  · rename_i c next hpc
    cases hs
    exact ⟨_, h.push hpc _⟩
  · rename_i now hpc
    cases hs
    exact h.sleep2ready hpc

/-! ### The calls of the active context -/

omit [Fintype T] in
theorem Inv.leaves (h : Inv algo s place) (huser : s.InUser t) {standing : Standing}
    (hplaced : Placed s' (Function.update place (s.thread t).active (.attached t true standing)))
    (hstanding : standing ≠ .running)
    (hsame : ∀ u, u ≠ t → (s'.thread u).Same (s.thread u))
    (hactive : (s'.thread t).active = (s.thread t).active) (hpc : (s'.thread t).pc = .picking none)
    (hjoining : (s'.thread t).shutdown → ∃ a, Function.update place (s.thread t).active
      (.attached t true standing) (.main t) = .attached t a (.hooked .dispatcher))
    (hfault : s'.fault = none) :
    Inv algo s' (Function.update place (s.thread t).active (.attached t true standing)) := by
  have hrunning := h.running huser
  have hrest := (h.othersSettled (huser.live) (s.thread t).active).move hsame (p := .attached t true standing)
    (fun u hu => by rw [hrunning]; exact owner_ne rfl hu) fun u hu => owner_ne rfl hu
  apply hrest.inv hplaced _ _ hfault
  · refine ⟨?_, fun _ => ?_, fun hdown _ => hjoining hdown⟩
    · rw [hactive, hpc]
      exact ⟨standing, hstanding, Function.update_self _ _ _⟩
    · rw [Function.update_of_ne (Ne.symm huser.2), hactive]
      exact (h.thread t).dispatcher (huser.live)
  · rw [Function.update_self]
    refine ⟨by simp, fun u hu => ?_⟩
    cases hu

theorem Inv.yield (h : Inv algo s place) (huser : s.InUser t) : Inv algo (s.yield t) place := by
  have hrunning := h.running huser
  have hready : s.terminated (s.thread t).active = false ∧ ¬ s.ReadyLinked (s.thread t).active ∧
      ¬ s.SleepLinked (s.thread t).active := by
    obtain ⟨hready, hsleep, -⟩ := h.placed.unlinked (.inr ⟨t, true, hrunning⟩)
    exact ⟨h.placed.terminated_eq hrunning (by simp [Place.shared]), hready, hsleep⟩
  rw [State.yield, h.placed.ownScheduler]
  simp only [State.require_pos hready]
  exact h.goto (huser.live) (by rw [huser.1]; rfl) ⟨rfl, hrunning⟩

omit [Fintype T] in
theorem Placed.suspend (h : Placed s place) (link : Link) {callee : CtxId T}
    (hrunning : place (s.thread t).active = .attached t true .running)
    (hcallee : s.scheduler callee = some t) (hpc : (s.thread t).pc = .user)
    (hallows : (Place.attached t true (.hooked link)).Allows (s.thread t).active) :
    s.suspend t link callee = (s.waitLink (s.thread t).active link).setPc t (.picking none) ∧
      Placed ((s.waitLink (s.thread t).active link).setPc t (.picking none))
        (Function.update place (s.thread t).active (.attached t true (.hooked link))) := by
  have hhook := h.not_hooked hrunning rfl
  have hcall : (s.waitLink (s.thread t).active link).getScheduler t callee =
      s.waitLink (s.thread t).active link := if_pos hcallee
  refine ⟨?_, (h.waitLink hrunning hallows).setPc ?_⟩
  · rw [State.suspend, State.require_pos hhook, hcall]
  · show _ = (s.thread t).pc.taken
    rw [hpc]
    rfl

omit [Fintype T] in
theorem setPc_picking (s' : State T) (hthread : s'.thread = s.thread) :
    (∀ u, u ≠ t → ((s'.setPc t (.picking none)).thread u).Same (s.thread u)) ∧
      ((s'.setPc t (.picking none)).thread t).active = (s.thread t).active ∧
      ((s'.setPc t (.picking none)).thread t).pc = .picking none ∧
      ((s'.setPc t (.picking none)).thread t).shutdown = (s.thread t).shutdown := by
  rw [setPc_thread, hthread]
  refine ⟨fun u hu => ?_, rfl, rfl, rfl⟩
  rw [← hthread]
  exact setPc_same _ _ hu

omit [Fintype T] in
/-- The main context runs no code of its own once `~scheduler` is called. -/
theorem Inv.not_joining (h : Inv algo s place) (huser : s.InUser t) {standing : Standing}
    (hdown : (s.thread t).shutdown) : ∃ a, Function.update place (s.thread t).active
      (.attached t true standing) (.main t) = .attached t a (.hooked .dispatcher) := by
  obtain ⟨a, hmain⟩ := (h.thread t).joining hdown huser.live
  refine ⟨a, ?_⟩
  rw [Function.update_of_ne, hmain]
  intro hactive
  have hrunning := h.running huser
  rw [← hactive] at hrunning
  cases hrunning.symm.trans hmain

omit [DecidableEq T] [Fintype T] in
theorem Inv.active_allows (h : Inv algo s place) (huser : s.InUser t) {standing : Standing}
    (hstanding : standing ≠ .ending) : (Place.attached t true standing).Allows (s.thread t).active := by
  have hallowed := h.placed.allowed (h.running huser)
  have hne := huser.2
  generalize (s.thread t).active = c at hallowed hne
  cases c with
  | main v => exact ⟨hallowed.1, hstanding⟩
  | dispatcher v =>
    obtain rfl : v = t := hallowed.1
    exact absurd rfl hne
  | worker n => trivial

omit [Fintype T] in
theorem Inv.suspend (h : Inv algo s place) (huser : s.InUser t) (q : Nat) :
    ∃ place', Inv algo (s.suspend t (.primitive q) (s.thread t).active) place' := by
  have hrunning := h.running huser
  obtain ⟨heq, hplaced⟩ := h.placed.suspend (.primitive q) hrunning (h.placed.scheduler_eq hrunning)
    huser.1 (h.active_allows huser (by simp))
  obtain ⟨hsame, hactive, hpc, hshutdown⟩ := setPc_picking (s := s) (t := t)
    (s.waitLink (s.thread t).active (.primitive q)) rfl
  rw [heq]
  refine ⟨_, h.leaves huser hplaced (by simp) hsame hactive hpc (fun hdown => ?_) h.fault⟩
  rw [hshutdown] at hdown
  exact h.not_joining huser hdown

theorem Inv.waitUntil (h : Inv algo s place) (huser : s.InUser t) (sleepTp : TimePoint) :
    ∃ place', Inv algo (s.waitUntil t sleepTp) place' := by
  have hrunning := h.running huser
  have hawake : s.terminated (s.thread t).active = false ∧ ¬ s.SleepLinked (s.thread t).active :=
    ⟨h.placed.terminated_eq hrunning (by simp [Place.shared]),
      (h.placed.unlinked (.inr ⟨t, true, hrunning⟩)).2.1⟩
  have hthread : (s.sleepLink t (s.thread t).active sleepTp).thread t = { s.thread t with
      sleepQueue := (s.thread t).sleepQueue.orderedInsert (fun a b => Function.update s.tp (s.thread t).active
        sleepTp a < Function.update s.tp (s.thread t).active sleepTp b) (s.thread t).active } :=
    setThread_self _ _ _
  have hplaced : Placed ((s.sleepLink t (s.thread t).active sleepTp).setPc t (.picking none)) _ :=
    (h.placed.sleepLink hrunning (h.active_allows huser (by simp)) sleepTp).setPc
      (by rw [hthread, huser.1]; rfl)
  rw [State.waitUntil, h.placed.ownScheduler]
  simp only [State.require_pos hawake]
  refine ⟨_, h.leaves huser hplaced (by simp) (fun u hu => ?_) ?_ ?_ (fun hdown => ?_) h.fault⟩
  · rw [State.setPc, setThread_of_ne _ _ hu, State.sleepLink, setThread_of_ne _ _ hu]
    exact ⟨rfl, rfl, rfl⟩
  · rw [setPc_thread, hthread]
  · rw [setPc_thread]
  · rw [setPc_thread, hthread] at hdown
    exact h.not_joining huser hdown

theorem Inv.setTerminated (h : Inv algo s place) (huser : s.InUser t) (hmain : (s.thread t).active ≠ .main t) :
    ∃ place', Inv algo (s.setTerminated t) place' := by
  have hrunning := h.running huser
  obtain ⟨n, hn⟩ : ∃ n, (s.thread t).active = .worker n := by
    have hallowed := h.placed.allowed hrunning
    have hdispatcher := huser.2
    generalize (s.thread t).active = c at hallowed hmain hdispatcher
    cases c with
    | worker n => exact ⟨n, rfl⟩
    | main v =>
      obtain rfl : v = t := hallowed.1
      exact absurd rfl hmain
    | dispatcher v =>
      obtain rfl : v = t := hallowed.1
      exact absurd rfl hdispatcher
  rw [hn] at hrunning
  obtain ⟨hready, hsleep, -, hhook⟩ := h.placed.unlinked (.inr ⟨t, true, hrunning⟩)
  have hown : State.ownScheduler { s with terminated := Function.update s.terminated (.worker n) true } t =
      { s with terminated := Function.update s.terminated (.worker n) true } := by
    rw [State.ownScheduler]
    exact if_pos (by rw [hn]; exact h.placed.scheduler_eq hrunning)
  have hended : (CtxId.worker n : CtxId T).pinned = false ∧
      Function.update s.terminated (.worker n) true (.worker n) = true ∧ ¬ s.ReadyLinked (.worker n) ∧
      ¬ s.SleepLinked (.worker n) ∧ s.waitHook (.worker n) = none :=
    ⟨rfl, Function.update_self _ _ _, hready, hsleep, hhook⟩
  have hthread : (State.terminatedLink { s with terminated := Function.update s.terminated (.worker n) true } t
      (.worker n)).thread t = { s.thread t with
        terminatedQueue := (s.thread t).terminatedQueue ++ [.worker n] } := setThread_self _ _ _
  have hplaced : Placed ((State.terminatedLink { s with
      terminated := Function.update s.terminated (.worker n) true } t (.worker n)).setPc t (.picking none)) _ :=
    (h.placed.terminate hrunning).setPc (by rw [hthread, huser.1]; rfl)
  have heq : s.setTerminated t = (State.terminatedLink { s with
      terminated := Function.update s.terminated (.worker n) true } t (.worker n)).setPc t (.picking none) := by
    simp only [State.setTerminated, hn]
    rw [hown]
    exact congrArg (fun x : State T => (x.terminatedLink t (.worker n)).setPc t (.picking none)) (if_pos hended)
  rw [heq]
  rw [← hn] at hplaced ⊢
  refine ⟨_, h.leaves huser hplaced (by simp) (fun u hu => ?_) ?_ ?_ (fun hdown => ?_) h.fault⟩
  · rw [State.setPc, setThread_of_ne _ _ hu, State.terminatedLink, setThread_of_ne _ _ hu]
    exact ⟨rfl, rfl, rfl⟩
  · rw [setPc_thread, hn, hthread]
    exact hn
  · rw [setPc_thread]
  · rw [setPc_thread, hn, hthread] at hdown
    rw [hn]
    exact hn ▸ h.not_joining huser hdown

omit [Fintype T] in
theorem Inv.destroy (h : Inv algo s place) (huser : s.InUser t) (hmain : (s.thread t).active = .main t) :
    ∃ place', Inv algo (s.destroy t) place' := by
  have hrunning := h.running huser
  have hdispatcher : s.scheduler (.dispatcher t) = some t := by
    rcases (h.thread t).dispatcher huser.live with hready | hactive
    · exact h.placed.scheduler_eq hready
    · exact absurd hactive huser.2
  have hdown : Placed (s.setThread t { s.thread t with shutdown := true }) place :=
    h.placed.sameThread (fun _ => rfl) { h.placed.lists t with }
  have hactive' : ((s.setThread t { s.thread t with shutdown := true }).thread t).active =
      (s.thread t).active := by
    rw [setThread_self]
  obtain ⟨heq, hplaced⟩ := hdown.suspend (t := t) .dispatcher (by rw [hactive']; exact hrunning)
    hdispatcher (by rw [setThread_self]; exact huser.1) (by
      rw [hactive']
      exact h.active_allows huser (by simp))
  rw [State.destroy, heq]
  rw [hactive'] at hplaced ⊢
  refine ⟨_, h.leaves huser hplaced (by simp) (fun u hu => ?_) ?_ ?_ (fun _ => ⟨true, ?_⟩) h.fault⟩
  · rw [State.setPc, setThread_of_ne _ _ hu]
    show ((s.setThread t _).thread u).Same _
    rw [setThread_of_ne _ _ hu]
    exact ⟨rfl, rfl, rfl⟩
  · rw [setPc_thread]
    exact hactive'
  · rw [setPc_thread]
  · rw [hmain, Function.update_self]

/-! ### New contexts and contexts that are woken -/

theorem Inv.create (h : Inv algo s place) (huser : s.InUser t) (policy : Launch) :
    ∃ place', Inv algo (s.create t policy) place' := by
  have hrunning := h.running huser
  have hfresh : place (.worker s.ncreated) = .fresh := h.placed.of_fresh (Nat.lt_irrefl _)
  have hne : (s.thread t).active ≠ .worker s.ncreated := h.placed.active_ne (by rw [hfresh]; simp)
  have hcreated := h.placed.create
  have hattach := hcreated.attach (t := t) (Function.update_self _ _ _)
  rw [Function.update_idem] at hattach
  have heq := hcreated.attach_eq (t := t) (Function.update_self _ _ _)
  have hholds := h.holding huser.live hattach (fun u hu => ?_) ?_ ?_ ?_ h.fault (fun u hu => ?_) (fun a => ?_)
  · have hactive : ((({ s with ncreated := s.ncreated + 1 } : State T).setScheduler (.worker s.ncreated)
        (some t)).workerLink t (.worker s.ncreated)).thread t = { s.thread t with
          workerQueue := (s.thread t).workerQueue ++ [.worker s.ncreated] } := setThread_self _ _ _
    simp only [State.create, heq]
    cases policy with
    | post =>
      rw [hholds.placed.ownScheduler, hholds.setReady_eq]
      refine ⟨_, hholds.ready .user ?_⟩
      rw [hactive]
      exact (Function.update_of_ne hne _ _).trans hrunning
    | dispatch =>
      apply hholds.resume
      rw [hactive]
      exact ⟨rfl, (Function.update_of_ne hne _ _).trans hrunning⟩
  · rw [State.workerLink, setThread_of_ne _ _ hu]
    exact ⟨rfl, rfl, rfl⟩
  · rw [State.workerLink, setThread_self]
    rfl
  · rw [State.workerLink, setThread_self]
    rfl
  · rw [State.workerLink, setThread_self]
    show (s.thread t).pc.taken = none
    rw [huser.1]
    rfl
  · rw [hfresh]
    exact Place.unowned rfl u
  · rw [hfresh]
    simp

theorem Inv.wake (h : Inv algo s place) (huser : s.InUser t) (hwaits : s.waits c) :
    (s.wake t c).fault = some .foreign ∨ ∃ place', Inv algo (s.wake t c) place' := by
  have hrunning := h.running huser
  obtain ⟨q, hq⟩ : ∃ q, s.waitHook c = some (.primitive q) := by
    rw [State.waits] at hwaits
    split at hwaits
    · rename_i q hq
      exact ⟨q, hq⟩
    · cases hwaits
  obtain ⟨v, a, hc⟩ := h.placed.of_hook hq
  have hne : (s.thread t).active ≠ c := by
    rintro rfl
    cases hrunning.symm.trans hc
  have hplaced := h.placed.waitUnlink hc
  have hscheduler : s.scheduler (s.thread t).active = some t := h.placed.scheduler_eq hrunning
  have hscheduler' : s.scheduler c = some v := h.placed.scheduler_eq hc
  have hchecks : ((s.waitUnlink c).thread t).active ≠ c ∧
      (s.waitUnlink c).scheduler ((s.waitUnlink c).thread t).active ≠ none ∧
      (s.waitUnlink c).scheduler c ≠ none := by
    refine ⟨hne, fun hnone => ?_, fun hnone => ?_⟩
    · cases hscheduler.symm.trans hnone
    · cases hscheduler'.symm.trans hnone
  have heq : s.wake t c = if some t = some v then ((s.waitUnlink c).ownScheduler t).setReady t c
      else (s.waitUnlink c).fail .foreign := by
    simp only [State.wake, State.contextSetReady, State.require_pos hchecks]
    rw [← hscheduler, ← hscheduler']
    rfl
  rw [heq]
  split
  · rename_i hv
    obtain rfl : t = v := Option.some.inj hv
    have ha : a = false := by
      cases a with
      | false => rfl
      | true => exact absurd ((h.placed.attached_active hc).mp rfl) hne
    subst ha
    have hholds := h.holding huser.live hplaced (fun _ _ => ⟨rfl, rfl, rfl⟩) rfl rfl
      (by show (s.thread t).pc.taken = none; rw [huser.1]; rfl) h.fault
      (fun u hu => by rw [hc]; exact owner_ne rfl hu) fun a => by rw [hc]; simp
    rw [hholds.placed.ownScheduler, hholds.setReady_eq]
    exact .inr ⟨_, hholds.ready .user ((Function.update_of_ne hne _ _).trans hrunning)⟩
  · left
    rw [State.fail, State.waitUnlink, h.fault]
    rfl

/-! ### The dispatcher -/

omit [DecidableEq T] [Fintype T] in
theorem Inv.setClock (h : Inv algo s place) (now : TimePoint) : Inv algo { s with clock := now } place :=
  { h with placed := h.placed.same (fun _ => rfl) (fun _ _ => rfl) h.placed.nodup h.placed.lists }

omit [Fintype T] in
theorem Inv.setFlag (h : Inv algo s place) (flag : Bool) :
    Inv algo (s.setThread t { s.thread t with flag := flag }) place := by
  have hsame : ∀ u, ((s.setThread t { s.thread t with flag := flag }).thread u).Same (s.thread u) := by
    intro u
    by_cases hu : u = t
    · subst hu
      rw [setThread_self]
      exact ⟨rfl, rfl, rfl⟩
    · rw [setThread_of_ne _ _ hu]
      exact ⟨rfl, rfl, rfl⟩
  refine ⟨h.placed.sameThread (fun _ => rfl) { h.placed.lists t with }, fun u => (h.thread u).congr (hsame u),
    fun c => ⟨(h.settled c).1, fun u hc => ?_⟩, h.fault⟩
  rw [(hsame u).2.1]
  exact (h.settled c).2 u hc

omit [Fintype T] in
theorem Inv.release (h : Inv algo s place) (hactive : (s.thread t).active = .dispatcher t)
    (hlive : (s.thread t).pc ≠ .destroyed) {rest : List (CtxId T)}
    (hq : (s.thread t).terminatedQueue = c :: rest) :
    (c.pinned = false ∧ s.terminated c = true ∧ ¬ s.ReadyLinked c ∧ ¬ s.SleepLinked c) ∧
      Inv algo ((s.workerUnlink c).setThread t { (s.workerUnlink c).thread t with terminatedQueue := rest })
        (Function.update place c (.released t)) := by
  obtain ⟨a, hc⟩ := h.placed.of_retired (t := t) (c := c) (by rw [hq]; exact List.mem_cons_self)
  have hallowed := h.placed.allowed hc
  cases c with
  | main v => exact absurd rfl hallowed.2
  | dispatcher v => cases hallowed.2
  | worker n =>
    have ha : a = false := by
      cases a with
      | false => rfl
      | true => cases hactive.symm.trans ((h.placed.attached_active hc).mp rfl)
    subst ha
    have hsame : ∀ u, (((s.workerUnlink (.worker n)).setThread t
        { (s.workerUnlink (.worker n)).thread t with terminatedQueue := rest }).thread u).Same (s.thread u) := by
      intro u
      by_cases hu : u = t
      · subst hu
        rw [setThread_self]
        exact ⟨rfl, rfl, rfl⟩
      · rw [setThread_of_ne _ _ hu]
        exact ⟨rfl, rfl, rfl⟩
    have hterminated : s.terminated (.worker n) = true :=
      (congrArg Shared.terminated (h.placed.shared_eq hc)).mpr rfl
    refine ⟨⟨rfl, hterminated, h.placed.not_readyLinked (by rw [hc]; simp),
      h.placed.not_sleepLinked (by rw [hc]; simp)⟩, ?_⟩
    have hrest := (h.othersSettled hlive (.worker n)).move (p := .released t) (fun u _ => hsame u)
      (fun u hu => by rw [hc]; exact owner_ne rfl hu) fun u _ => Place.unowned rfl u
    apply hrest.inv (h.placed.release hq hc) _ _ h.fault
    · have hne := h.placed.active_ne (t := t) (c := .worker n) (by rw [hc]; simp)
      exact ((h.thread t).worker hne hlive (h.thread t).pc hlive).congr (hsame t)
    · rw [Function.update_self]
      exact ⟨by simp, by simp⟩

theorem Inv.releaseTerminated (l : List (CtxId T)) (h : Inv algo s place)
    (hactive : (s.thread t).active = .dispatcher t) (hpc : (s.thread t).pc = .user)
    (hq : (s.thread t).terminatedQueue = l) :
    ∃ place', Inv algo (s.releaseTerminated t l) place' ∧
      ((s.releaseTerminated t l).thread t).active = .dispatcher t ∧
      ((s.releaseTerminated t l).thread t).pc = .user := by
  induction l generalizing s place with
  | nil => exact ⟨place, h, hactive, hpc⟩
  | cons c rest ih =>
    obtain ⟨hchecks, hreleased⟩ := h.release hactive (by rw [hpc]; simp) hq
    simp only [State.releaseTerminated, State.require_pos hchecks]
    apply ih hreleased
    · rw [setThread_self]
      exact hactive
    · rw [setThread_self]
      exact hpc
    · rw [setThread_self]

end Steps

end Dumbo.Fiber.Threads
