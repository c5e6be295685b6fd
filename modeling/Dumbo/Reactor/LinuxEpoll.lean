import Dumbo.Reactor.LinuxIoInvariant

/-!
# Registrations in the epoll set

An `accept` that has to wait registers a message on its own stack, and leaves the registration
behind when it goes on. The set stays sound as long as each server socket makes an `accept` wait
at most once and is closed before the next poll.
-/

namespace Dumbo.Reactor.LinuxIo

open Transition

variable {s t : State} {f : FiberId} {m : MsgId}

/-- What a poll relies on: every registered `data.ptr` is a message that exists. -/
def State.EpollLive (s : State) : Prop :=
  ∀ l, s.loop = .poll l → ∀ fd m, s.epoll fd = some m → (s.heap m).isSome

/-- The condition on the runs: a poll starts only while each `accept` that has registered its
socket is still waiting, unless the socket is closed by then, and `::accept` answers `EAGAIN` only
on a socket on which no call has waited before. -/
def AcceptOk (s : State) : Action → Prop
  | .eventLoop => s.loop = .yielded → ∀ fd, s.socket fd = .server → s.epoll fd ≠ none →
      ∃ f m, (s.fiber f).pc = .acceptWait fd m
  | .acceptResult .wouldBlock => ∀ f fd, s.active = some f → (s.fiber f).pc = .accept fd →
      s.epoll fd = none
  | _ => True

/-- A registered descriptor is a connection, or a server socket on which an `accept` waited. -/
theorem Owned.registered (ho : Owned s) {fd : Fd} (he : s.epoll fd = some m)
    (hwait : s.socket fd = .server → ∃ f m, (s.fiber f).pc = .acceptWait fd m) :
    (s.heap m).isSome := by
  have hsome {msg : Message} (hk : s.kind m = some msg) : (s.heap m).isSome := by
    obtain ⟨msg', hheap, -⟩ := Option.map_eq_some_iff.mp hk
    simp [hheap]
  cases hsock : s.socket fd with
  | closed => simp [ho.closed fd hsock] at he
  | connection m' =>
    obtain ⟨he', g, hk⟩ := ho.connection fd m' hsock
    rw [he, Option.some.injEq] at he'
    exact hsome (he' ▸ hk)
  | server =>
    obtain ⟨g, m', hpc⟩ := hwait hsock
    have he' := ((ho.fiber g).acceptWait fd m' hpc).2
    rw [he, Option.some.injEq] at he'
    have hk := (ho.fiber g).owned m' (.fiberIo g 0) (by rw [hpc, Pc.owned])
    exact hsome (he' ▸ hk)

theorem stepFiber_frame {a : Action} (h : stepFiber s f a = some t) :
    t.loop = s.loop ∧ t.rejected = s.rejected := by
  cases a <;> simp only [stepFiber, reduceCtorEq] at h <;> (repeat' split at h) <;> cases h <;>
    exact ⟨rfl, rfl⟩

theorem stepFile_frame {a : Action} (h : stepFile s f a = some t) :
    t.loop = s.loop ∧ t.rejected = s.rejected := by
  cases a <;> simp only [stepFile, reduceCtorEq] at h <;> (repeat' split at h) <;> cases h <;>
    exact ⟨rfl, rfl⟩

theorem stepSocket_frame {a : Action} (hf : s.active = some f) (hok : AcceptOk s a)
    (h : stepSocket s f a = some t) : t.loop = s.loop ∧ t.rejected = s.rejected := by
  cases a
  case acceptResult r =>
    simp only [stepSocket] at h
    split at h
    · rename_i fd hpc
      cases r with
      | wouldBlock =>
        simp only [hok f fd hf hpc, Option.some.injEq] at h
        subst h
        exact ⟨rfl, rfl⟩
      | error =>
        cases h
        exact ⟨rfl, rfl⟩
      | connection cfd =>
        simp only at h
        (repeat' split at h) <;> cases h <;> exact ⟨rfl, rfl⟩
    · cases h
  all_goals
    simp only [stepSocket, reduceCtorEq] at h <;> (repeat' split at h) <;> cases h <;>
      exact ⟨rfl, rfl⟩

theorem processFn_frame : (s.processFn m).loop = s.loop ∧ (s.processFn m).rejected = s.rejected := by
  have hresume (s : State) (f : FiberId) :
      (s.resume m f).loop = s.loop ∧ (s.resume m f).rejected = s.rejected := by
    simp only [State.resume]
    split <;> exact ⟨rfl, rfl⟩
  simp only [State.processFn]
  split
  · exact ⟨rfl, rfl⟩
  · rename_i msg hm
    split
    · cases msg with
      | lambda f r => exact hresume s f
      | singleIo f r => exact hresume s f
      | oneWay => exact ⟨rfl, rfl⟩
      | foreign => exact ⟨rfl, rfl⟩
      | multiIo f n =>
        simp only [State.finish]
        split
        · exact hresume _ f
        · exact ⟨rfl, rfl⟩
      | fiberIo f c =>
        simp only [State.finish]
        split
        · exact hresume _ f
        · exact ⟨rfl, rfl⟩
    · exact ⟨rfl, rfl⟩

theorem State.EpollLive.of_heap (hl : s.EpollLive) (hloop : ∀ l, t.loop = .poll l → ∃ l', s.loop = .poll l')
    (hepoll : t.epoll = s.epoll) (hheap : ∀ m, (s.heap m).isSome → (t.heap m).isSome) :
    t.EpollLive := by
  intro l hl' fd m he
  obtain ⟨l', hl''⟩ := hloop l hl'
  exact hheap m (hl l' hl'' fd m (hepoll ▸ he))

theorem State.EpollLive.of_loop (hloop : ∀ l, t.loop ≠ .poll l) : t.EpollLive :=
  fun l hl => absurd hl (hloop l)

theorem store_isSome {msg : Message} (m' : MsgId) (h : (s.heap m').isSome) :
    ((s.store m (some msg)).heap m').isSome := by
  simp only [State.store, Function.update_apply]
  split
  · rfl
  · exact h

theorem State.EpollLive.stepLoop (hl : s.EpollLive) (ho : Owned s) {a : Action} (hok : AcceptOk s a)
    (h : stepLoop s a = some t) : t.EpollLive ∧ t.rejected = s.rejected := by
  cases a <;> simp only [LinuxIo.stepLoop, reduceCtorEq] at h
  case eventLoop =>
    split at h
    · cases h
      exact ⟨.of_loop (by simp), rfl⟩
    · rename_i hloop
      split at h <;> cases h
      · obtain ⟨hl', hr⟩ := processFn_frame (s := { s with ring := _ })
        refine ⟨.of_loop fun l hl => ?_, hr⟩
        rw [hl'] at hl
        simp [hloop] at hl
      · exact ⟨.of_loop (by simp), rfl⟩
    · split at h <;> cases h
      obtain ⟨hl', hr⟩ := processFn_frame (s := { s with inbox := _, loop := _ })
      exact ⟨.of_loop (by simp [hl']), hr⟩
    · cases h
      exact ⟨.of_loop (by simp), rfl⟩
    · rename_i hloop
      cases h
      refine ⟨fun l _ fd m he => ?_, rfl⟩
      have he' : s.epoll fd = some m := he
      exact ho.registered he' fun hs => hok hloop fd hs (by simp [he'])
  case pollSocket fd =>
    split at h
    · rename_i l m hloop he
      split at h <;> cases h
      exact ⟨hl.of_heap (fun _ _ => ⟨l, hloop⟩) rfl fun _ h => h, rfl⟩
    · cases h
  case pollFile m =>
    split at h
    · rename_i l hloop
      split at h
      · split at h <;> cases h
        · exact ⟨hl.of_heap (fun _ _ => ⟨l, hloop⟩) rfl store_isSome, rfl⟩
        · exact ⟨hl.of_heap (fun _ _ => ⟨l, hloop⟩) rfl fun _ h => h, rfl⟩
        · exact ⟨hl.of_heap (fun _ _ => ⟨l, hloop⟩) rfl fun _ h => h, rfl⟩
      · cases h
    · cases h
  case schedule f =>
    split at h <;> cases h
    rename_i hc
    exact ⟨.of_loop (by simp [hc.1, State.setStatus, State.setFiber]), rfl⟩
  case wake f =>
    split at h <;> cases h
    rename_i hloop _
    exact ⟨.of_loop (by simp [hloop, State.setStatus, State.setFiber]), rfl⟩

theorem State.EpollLive.stepRemote (hl : s.EpollLive) {a : Action} (h : stepRemote s a = some t) :
    t.EpollLive ∧ t.rejected = s.rejected := by
  cases a <;> simp only [LinuxIo.stepRemote, reduceCtorEq] at h
  case remoteReply m =>
    split at h
    · split at h <;> cases h
      exact ⟨hl.of_heap (fun l h => ⟨l, h⟩) rfl store_isSome, rfl⟩
    · cases h
  case remoteRequest =>
    cases h
    exact ⟨hl.of_heap (fun l h => ⟨l, h⟩) rfl store_isSome, rfl⟩

theorem State.EpollLive.step (hl : s.EpollLive) (ho : Owned s) {a : Action} (hok : AcceptOk s a)
    (h : step s a = some t) : t.EpollLive ∧ t.rejected = s.rejected := by
  simp only [LinuxIo.step] at h
  split at h
  · cases h
  · rcases Option.or_eq_some_iff.mp h with h | ⟨-, h⟩
    · exact hl.stepRemote h
    · split at h
      · exact hl.stepLoop ho hok h
      · rename_i f hf
        have hfiber (hframe : t.loop = s.loop ∧ t.rejected = s.rejected) :
            t.EpollLive ∧ t.rejected = s.rejected :=
          ⟨.of_loop (by simp [hframe.1, ho.loop f hf]), hframe.2⟩
        rcases Option.or_eq_some_iff.mp h with h | ⟨-, h⟩
        · rcases Option.or_eq_some_iff.mp h with h | ⟨-, h⟩
          · exact hfiber (stepFiber_frame h)
          · exact hfiber (stepFile_frame h)
        · exact hfiber (stepSocket_frame hf hok h)

/-- In every run that keeps to `AcceptOk` each poll finds live messages only, and no `accept` that
has to wait fails for a registration. -/
theorem epoll_registrations (h : machine.ReachableWith AcceptOk s) :
    s.EpollLive ∧ s.rejected = [] := by
  have hinv : Owned s ∧ s.EpollLive ∧ s.rejected = [] := by
    refine h.invariant (P := fun s => Owned s ∧ s.EpollLive ∧ s.rejected = [])
      ⟨owned_initial, fun l _ fd m he => ?_, rfl⟩ ?_
    · cases he
    · intro s a t hi hok hs
      obtain ⟨hl, hr⟩ := hi.2.1.step hi.1 hok hs
      exact ⟨hi.1.step hs, hl, hr.trans hi.2.2⟩
  exact hinv.2

/-- An `accept` waits for its connection. -/
def acceptBlocks : List Action :=
  [.eventLoop, .eventLoop, .eventLoop, .eventLoop, .schedule 0, .listen 0, .accept 0,
    .acceptResult .wouldBlock]

/-- The connection arrives and is accepted. The next `accept` finds the old registration, and the
next poll as well. -/
def acceptTwice : List Action :=
  acceptBlocks ++ [.eventLoop, .pollSocket 0, .eventLoop, .eventLoop, .eventLoop, .eventLoop,
    .schedule 0, .acceptContinue, .acceptResult (.connection 1), .accept 0,
    .acceptResult .wouldBlock, .yield, .eventLoop]

theorem epoll_registration_left : ∃ s, machine.Reachable s ∧ ¬ s.EpollLive ∧ s.rejected = [0] := by
  obtain ⟨s, hs, hloop, he, hheap, hr⟩ : ∃ s, machine.exec initial acceptTwice = some s ∧
      s.loop = .poll [] ∧ s.epoll 0 = some 1 ∧ s.heap 1 = none ∧ s.rejected = [0] :=
    ⟨_, rfl, rfl, rfl, rfl, rfl⟩
  refine ⟨s, Machine.reachable_of_exec hs, fun hl => ?_, hr⟩
  have hsome := hl [] hloop 0 1 he
  simp [hheap] at hsome

/-- The steps that `AcceptOk` permits whatever the other descriptors are. -/
def acceptCheck (s : State) : Action → Bool
  | .eventLoop => s.loop ≠ .yielded
  | .acceptResult .wouldBlock =>
    s.active = some 0 && (s.fiber 0).pc = .accept 0 && s.epoll 0 = none
  | _ => true

theorem acceptOk_of_check {a : Action} (h : acceptCheck s a) : AcceptOk s a := by
  unfold AcceptOk
  split
  · intro hloop
    simp [acceptCheck, hloop] at h
  · simp only [acceptCheck, Bool.and_eq_true, decide_eq_true_eq] at h
    intro f fd hf hpc
    simp_all
  · trivial

/-- The poll during which that `accept` waits. -/
theorem epoll_registrations_wait : ∃ s : State, s.loop = .poll [] ∧ s.epoll 0 = some 1 ∧
    s.EpollLive ∧ s.rejected = [] := by
  obtain ⟨s, hs, hloop, he, hactive, hfault, hpc⟩ :
      ∃ s, (machine.guarded acceptCheck).exec initial acceptBlocks = some s ∧
        s.loop = .yielded ∧ s.epoll = Function.update (fun _ => none) 0 (some 1) ∧
        s.active = none ∧ s.fault = none ∧ (s.fiber 0).pc = .acceptWait 0 1 :=
    ⟨_, rfl, rfl, rfl, rfl, rfl, rfl⟩
  have hr : machine.ReachableWith AcceptOk s :=
    (Machine.reachableWith_of_exec hs).mono fun _ _ => acceptOk_of_check
  have hok : AcceptOk s .eventLoop := by
    intro _ fd _ hne
    have hfd : fd = 0 := by
      by_contra h
      simp [he, Function.update_of_ne h] at hne
    exact ⟨0, 1, hfd ▸ hpc⟩
  have hstep : step s .eventLoop = some { s with loop := .poll [] } := by
    simp [step, stepRemote, stepLoop, hfault, hactive, hloop]
  exact ⟨_, rfl, by simp [he], epoll_registrations (.step hr hok hstep)⟩

end Dumbo.Reactor.LinuxIo
