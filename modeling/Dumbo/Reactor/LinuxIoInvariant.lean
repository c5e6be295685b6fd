import Dumbo.Reactor.LinuxIo

/-!
# Ownership in the Linux reactor

What holds in every run, whatever the poller reports: each call keeps the message it allocated
until it returns, and the epoll set names the message of each open connection and of each `accept`
that waits.
-/

namespace Dumbo.Reactor.LinuxIo

open Transition

/-- A message without the field that changes after its construction: its class and its fiber. -/
def Message.erase : Message → Message
  | .lambda f _ => .lambda f false
  | .oneWay => .oneWay
  | .foreign => .foreign
  | .singleIo f _ => .singleIo f false
  | .multiIo f _ => .multiIo f 0
  | .fiberIo f _ => .fiberIo f 0

def State.kind (s : State) (m : MsgId) : Option Message := (s.heap m).map Message.erase

/-- The message on the stack of a fiber inside a call, erased. -/
def Pc.owned (f : FiberId) : Pc → Option (MsgId × Message)
  | .runAt m => some (m, .lambda f false)
  | .singleSubmit m | .singleWait m => some (m, .singleIo f false)
  | .batchSubmit m _ _ | .batchWait m _ _ _ => some (m, .multiIo f 0)
  | .acceptWait _ m => some (m, .fiberIo f 0)
  | _ => none

/-- The fiber a message was constructed by. -/
def Message.caller : Message → Option FiberId
  | .lambda f _ | .singleIo f _ | .multiIo f _ | .fiberIo f _ => some f
  | .oneWay | .foreign => none

structure FiberOk (s : State) (f : FiberId) : Prop where
  fresh : s.nfibers ≤ f → s.fiber f = ⟨.terminated, .user, none⟩
  active : (s.fiber f).status = .active ↔ s.active = some f
  owned : ∀ m msg, (s.fiber f).pc.owned f = some (m, msg) → s.kind m = some msg
  accept : ∀ fd, (s.fiber f).pc = .accept fd → s.socket fd = .server
  acceptWait : ∀ fd m, (s.fiber f).pc = .acceptWait fd m →
    s.socket fd = .server ∧ s.epoll fd = some m

structure Owned (s : State) : Prop where
  fiber : ∀ f, FiberOk s f
  heap : ∀ m, s.nmsgs ≤ m → s.kind m = none
  connection : ∀ fd m, s.socket fd = .connection m →
    s.epoll fd = some m ∧ ∃ f, s.kind m = some (.fiberIo f 0)
  closed : ∀ fd, s.socket fd = .closed → s.epoll fd = none
  data : ∀ fd m, s.epoll fd = some m → m < s.nmsgs
  data_inj : ∀ fd fd' m, s.epoll fd = some m → s.epoll fd' = some m → fd = fd'
  loop : ∀ f, s.active = some f → s.loop = .yielded

variable {s t : State} {f : FiberId} {m : MsgId}

theorem Pc.caller_of_owned {pc : Pc} {msg : Message} (h : pc.owned f = some (m, msg)) :
    msg.caller = some f := by
  cases pc <;> simp only [owned, Option.some.injEq, Prod.mk.injEq, reduceCtorEq] at h <;>
    rw [← h.2] <;> rfl

theorem owned_initial : Owned initial := by
  constructor
  case fiber => intro f; constructor <;> simp [initial, Pc.owned]
  case heap =>
    intro m hm
    have hne : m ≠ 0 := by simp only [initial] at hm; omega
    simp [initial, State.kind, hne]
  all_goals simp [initial]

theorem Owned.congr (ho : Owned s) (hfiber : t.fiber = s.fiber) (hn : t.nfibers = s.nfibers)
    (hkind : t.kind = s.kind) (hnm : t.nmsgs = s.nmsgs) (hepoll : t.epoll = s.epoll)
    (hsocket : t.socket = s.socket) (hactive : t.active = s.active)
    (hloop : s.active ≠ none → t.loop = s.loop) : Owned t where
  fiber f := by
    obtain ⟨h1, h2, h3, h4, h5⟩ := ho.fiber f
    constructor <;> simp only [hfiber, hn, hkind, hepoll, hsocket, hactive] <;> assumption
  heap := by rw [hkind, hnm]; exact ho.heap
  connection := by rw [hsocket, hepoll, hkind]; exact ho.connection
  closed := by rw [hsocket, hepoll]; exact ho.closed
  data := by rw [hepoll, hnm]; exact ho.data
  data_inj := by rw [hepoll]; exact ho.data_inj
  loop f hf := by
    rw [hactive] at hf
    rw [hloop (by simp [hf])]
    exact ho.loop f hf

theorem kind_store (m' : MsgId) (msg : Option Message) :
    (s.store m msg).kind m' = if m' = m then msg.map Message.erase else s.kind m' := by
  simp only [State.kind, State.store, Function.update_apply]
  split <;> rfl

theorem kind_store_eq {msg msg' : Message} (hm : s.heap m = some msg)
    (he : msg'.erase = msg.erase) : (s.store m (some msg')).kind = s.kind := by
  funext m'
  rw [kind_store]
  split
  · simp_all [State.kind]
  · rfl

theorem Owned.store (ho : Owned s) {msg msg' : Message} (hm : s.heap m = some msg)
    (he : msg'.erase = msg.erase) : Owned (s.store m (some msg')) :=
  ho.congr rfl rfl (kind_store_eq hm he) rfl rfl rfl rfl fun _ => rfl

theorem Owned.setStatus (ho : Owned s) {st : Status} (hf : s.active ≠ some f) (hst : st ≠ .active)
    (hn : f < s.nfibers) : Owned (s.setStatus f st) := by
  obtain ⟨h1, h2, h3, h4, h5, h6, h7⟩ := ho
  refine ⟨fun g => ?_, h2, h3, h4, h5, h6, h7⟩
  obtain ⟨g1, g2, g3, g4, g5⟩ := h1 g
  by_cases hg : g = f
  · subst hg
    refine ⟨fun hge => ?_, ?_, ?_, ?_, ?_⟩ <;>
      simp only [State.setStatus, State.setFiber, Function.update_self] at *
    · exact absurd hn (Nat.not_lt.mpr hge)
    · simp [hst, hf]
    all_goals assumption
  · constructor <;> simp only [State.setStatus, State.setFiber, Function.update_of_ne hg] <;>
      assumption

theorem Owned.lt_nfibers (ho : Owned s) (h : (s.fiber f).status ≠ .terminated) :
    f < s.nfibers := by
  by_contra hge
  have hfresh := (ho.fiber f).fresh (Nat.not_lt.mp hge)
  simp [hfresh] at h

theorem Owned.resume (ho : Owned s) (hf : s.active = none) : Owned (s.resume m f) := by
  have hlog (l : List (MsgId × Status)) (e : Option Fault) :
      Owned { s with resumes := l, fault := e } :=
    ho.congr rfl rfl rfl rfl rfl rfl rfl fun _ => rfl
  simp only [State.resume]
  split
  · rename_i h
    exact (hlog _ s.fault).setStatus (by simp [hf]) (by simp) (ho.lt_nfibers (by simp [h]))
  · rename_i h
    exact (hlog _ s.fault).setStatus (by simp [hf]) (by simp) (ho.lt_nfibers (by simp [h]))
  · exact hlog _ _

theorem Owned.free (ho : Owned s) (hpc : ∀ f msg, (s.fiber f).pc.owned f ≠ some (m, msg))
    (hconn : ∀ fd, s.socket fd ≠ .connection m) : Owned (s.store m none) := by
  obtain ⟨h1, h2, h3, h4, h5, h6, h7⟩ := ho
  refine ⟨fun g => ?_, fun m' hm' => ?_, fun fd m' hfd => ?_, h4, h5, h6, h7⟩
  · obtain ⟨g1, g2, g3, g4, g5⟩ := h1 g
    refine ⟨g1, g2, fun m' msg h => ?_, g4, g5⟩
    have hne : m' ≠ m := by
      rintro rfl
      exact hpc g msg h
    rw [kind_store, if_neg hne]
    exact g3 m' msg h
  · rw [kind_store]
    split
    · rfl
    · exact h2 m' hm'
  · have hne : m' ≠ m := by
      rintro rfl
      exact hconn fd hfd
    rw [kind_store, if_neg hne]
    exact h3 fd m' hfd

theorem Owned.finish (ho : Owned s) {msg : Message} (hm : s.heap m = some msg)
    (hf : s.active = none) : Owned (s.finish m msg) := by
  cases msg with
  | lambda f r => exact ho.resume hf
  | singleIo f r => exact ho.resume hf
  | foreign => exact ho
  | oneWay =>
    have hk : s.kind m = some .oneWay := by simp [State.kind, hm, Message.erase]
    refine ho.free (fun f msg h => ?_) fun fd h => ?_
    · have hk' := (ho.fiber f).owned m msg h
      rw [hk, Option.some.injEq] at hk'
      have hcaller := Pc.caller_of_owned h
      rw [← hk'] at hcaller
      cases hcaller
    · obtain ⟨-, f, hk'⟩ := ho.connection fd m h
      rw [hk] at hk'
      cases hk'
  | multiIo f n =>
    have hs : Owned (s.store m (some (.multiIo f (predSize n)))) := ho.store hm (by simp only [Message.erase])
    simp only [State.finish]
    split
    · exact hs.resume hf
    · exact hs
  | fiberIo f c =>
    have hs : Owned (s.store m (some (.fiberIo f (predSize c)))) := ho.store hm (by simp only [Message.erase])
    simp only [State.finish]
    split
    · exact hs.resume hf
    · exact hs

theorem Owned.spawn (ho : Owned s) (handler : Option MsgId) : Owned (s.spawn handler) := by
  have hnew := ho.fiber s.nfibers
  have hinactive : s.active ≠ some s.nfibers := by
    rw [Ne, ← hnew.active, hnew.fresh (Nat.le_refl _)]
    simp
  obtain ⟨h1, h2, h3, h4, h5, h6, h7⟩ := ho
  refine ⟨fun g => ?_, h2, h3, h4, h5, h6, h7⟩
  by_cases hg : g = s.nfibers
  · subst hg
    constructor <;> simp only [State.spawn, State.setFiber, Function.update_self]
    · intro hge
      exact absurd hge (Nat.not_succ_le_self _)
    · simpa using hinactive
    · simp [Pc.owned]
    · simp
    · simp
  · obtain ⟨g1, g2, g3, g4, g5⟩ := h1 g
    constructor <;> simp only [State.spawn, State.setFiber, Function.update_of_ne hg]
    · intro hge
      exact g1 (Nat.le_of_succ_le hge)
    · exact g2
    · exact g3
    · exact g4
    · exact g5

theorem Owned.processFn (ho : Owned s) (hf : s.active = none) : Owned (s.processFn m) := by
  simp only [State.processFn]
  split
  · exact ho.congr rfl rfl rfl rfl rfl rfl rfl fun _ => rfl
  · split
    · exact ho.finish (by assumption) hf
    · exact ho.spawn _

theorem Owned.move (ho : Owned s) (hf : s.active = some f) {x : Fiber}
    (howned : ∀ m msg, x.pc.owned f = some (m, msg) → s.kind m = some msg)
    (haccept : ∀ fd, x.pc = .accept fd → s.socket fd = .server)
    (hwait : ∀ fd m, x.pc = .acceptWait fd m → s.socket fd = .server ∧ s.epoll fd = some m) :
    Owned { s.setFiber f x with active := if x.status = .active then some f else none } := by
  have hn : f < s.nfibers :=
    ho.lt_nfibers (by simp [(ho.fiber f).active.mpr hf])
  have hloop := ho.loop f hf
  obtain ⟨h1, h2, h3, h4, h5, h6, h7⟩ := ho
  refine ⟨fun g => ?_, h2, h3, h4, h5, h6, fun _ _ => hloop⟩
  obtain ⟨g1, g2, g3, g4, g5⟩ := h1 g
  by_cases hg : g = f
  · subst hg
    refine ⟨fun hge => absurd hn (Nat.not_lt.mpr hge), ?_, ?_, ?_, ?_⟩ <;>
      simp only [State.setFiber, Function.update_self]
    · split <;> simp_all
    · exact howned
    · exact haccept
    · exact hwait
  · have hne : s.active ≠ some g := by simp [hf, Ne.symm hg]
    have hst : (s.fiber g).status ≠ .active := fun h => hne (g2.mp h)
    refine ⟨?_, ?_, ?_, ?_, ?_⟩ <;> simp only [State.setFiber, Function.update_of_ne hg]
    · exact g1
    · simp only [hst, false_iff]
      split <;> simp [Ne.symm hg]
    · exact g3
    · exact g4
    · exact g5

theorem Owned.setPc (ho : Owned s) (hf : s.active = some f) {pc : Pc}
    (howned : ∀ m msg, pc.owned f = some (m, msg) → s.kind m = some msg)
    (haccept : ∀ fd, pc = .accept fd → s.socket fd = .server)
    (hwait : ∀ fd m, pc = .acceptWait fd m → s.socket fd = .server ∧ s.epoll fd = some m) :
    Owned (s.setPc f pc) := by
  have hm := ho.move hf (x := { s.fiber f with pc := pc }) howned haccept hwait
  rw [if_pos ((ho.fiber f).active.mpr hf)] at hm
  exact hm.congr rfl rfl rfl rfl rfl rfl hf fun _ => rfl

theorem Owned.suspend (ho : Owned s) (hf : s.active = some f) {pc : Pc}
    (howned : ∀ m msg, pc.owned f = some (m, msg) → s.kind m = some msg)
    (haccept : ∀ fd, pc = .accept fd → s.socket fd = .server)
    (hwait : ∀ fd m, pc = .acceptWait fd m → s.socket fd = .server ∧ s.epoll fd = some m) :
    Owned (s.suspend f m pc) :=
  ho.move hf (x := { s.fiber f with status := .waiting m, pc := pc }) howned haccept hwait

theorem Owned.leave (ho : Owned s) (hf : s.active = some f) {st : Status} (hst : st ≠ .active) :
    Owned { s.setStatus f st with active := none } := by
  obtain ⟨h1, h2, h3, h4, h5⟩ := ho.fiber f
  have hm := ho.move hf (x := { s.fiber f with status := st }) h3 h4 h5
  simp only [if_neg hst] at hm
  exact hm

theorem kind_alloc (msg : Message) (m' : MsgId) :
    (s.alloc msg).kind m' = if m' = s.nmsgs then some msg.erase else s.kind m' :=
  kind_store m' (some msg)

theorem Owned.alloc (ho : Owned s) (msg : Message) : Owned (s.alloc msg) := by
  have hfresh := ho.heap s.nmsgs (Nat.le_refl _)
  have hkind (m' : MsgId) (k : Message) (h : s.kind m' = some k) :
      (s.alloc msg).kind m' = some k := by
    have hne : m' ≠ s.nmsgs := by
      rintro rfl
      simp [hfresh] at h
    rw [kind_alloc, if_neg hne, h]
  obtain ⟨h1, h2, h3, h4, h5, h6, h7⟩ := ho
  refine ⟨fun g => ?_, fun m' hm' => ?_, fun fd m' hfd => ?_, h4, fun fd m' hfd => ?_, h6, h7⟩
  · obtain ⟨g1, g2, g3, g4, g5⟩ := h1 g
    exact ⟨g1, g2, fun m' msg' h => hkind m' msg' (g3 m' msg' h), g4, g5⟩
  · have hlt : s.nmsgs < m' := hm'
    rw [kind_alloc, if_neg (Nat.ne_of_gt hlt), h2 m' (Nat.le_of_lt hlt)]
  · obtain ⟨he, g, hg⟩ := h3 fd m' hfd
    exact ⟨he, g, hkind m' _ hg⟩
  · exact Nat.lt_succ_of_lt (h5 fd m' hfd)

theorem Owned.not_connection (ho : Owned s) {msg : Message}
    (h : (s.fiber f).pc.owned f = some (m, msg)) (fd : Fd) : s.socket fd ≠ .connection m := by
  intro hfd
  obtain ⟨he, g, hk⟩ := ho.connection fd m hfd
  have hk' := (ho.fiber f).owned m msg h
  cases hpc : (s.fiber f).pc with
  | acceptWait fd' m' =>
    -- both messages are of one class: they are told apart by the descriptors they stand for
    simp only [hpc, Pc.owned, Option.some.injEq, Prod.mk.injEq] at h
    obtain ⟨hsrv, he'⟩ := (ho.fiber f).acceptWait fd' m' hpc
    obtain rfl := ho.data_inj fd fd' m he (h.1 ▸ he')
    simp [hsrv] at hfd
  | user | accept | transfer => simp [hpc, Pc.owned] at h
  | _ =>
    simp only [hpc, Pc.owned, Option.some.injEq, Prod.mk.injEq] at h
    rw [hk, ← h.2] at hk'
    cases hk'

theorem Owned.return (ho : Owned s) (hf : s.active = some f) {msg : Message} {pc : Pc}
    (hm : (s.fiber f).pc.owned f = some (m, msg)) (hpc : pc.owned f = none)
    (haccept : ∀ fd, pc = .accept fd → s.socket fd = .server) :
    Owned ((s.store m none).setPc f pc) := by
  have hmove : Owned (s.setPc f pc) := by
    refine ho.setPc hf (by simp [hpc]) haccept fun fd m' h => ?_
    simp [h, Pc.owned] at hpc
  refine Owned.free hmove (fun g msg' h => ?_) fun fd hfd => ?_
  · by_cases hg : g = f
    · subst hg
      simp [State.setPc, State.setFiber, hpc] at h
    · simp only [State.setPc, State.setFiber, Function.update_of_ne hg] at h
      have hk := (ho.fiber g).owned m msg' h
      rw [(ho.fiber f).owned m msg hm, Option.some.injEq] at hk
      rw [← hk] at h
      have hcaller := (Pc.caller_of_owned h).symm.trans (Pc.caller_of_owned hm)
      exact hg (Option.some.inj hcaller)
  · exact ho.not_connection hm fd hfd

theorem Owned.schedule (ho : Owned s) (hf : s.active = none) (hloop : s.loop = .yielded)
    (hready : (s.fiber f).status = .ready) :
    Owned { s.setStatus f .active with active := some f } := by
  have hn := ho.lt_nfibers (f := f) (by simp [hready])
  obtain ⟨h1, h2, h3, h4, h5, h6, h7⟩ := ho
  refine ⟨fun g => ?_, h2, h3, h4, h5, h6, fun _ _ => hloop⟩
  obtain ⟨g1, g2, g3, g4, g5⟩ := h1 g
  by_cases hg : g = f
  · subst hg
    refine ⟨fun hge => absurd hn (Nat.not_lt.mpr hge), ?_, ?_, ?_, ?_⟩ <;>
      simp only [State.setStatus, State.setFiber, Function.update_self] <;> assumption
  · refine ⟨?_, ?_, ?_, ?_, ?_⟩ <;>
      simp only [State.setStatus, State.setFiber, Function.update_of_ne hg]
    · exact g1
    · rw [g2, hf]
      simp [Ne.symm hg]
    · exact g3
    · exact g4
    · exact g5

theorem Owned.stepLoop (ho : Owned s) (hf : s.active = none) {a : Action}
    (h : stepLoop s a = some t) : Owned t := by
  have hframe {t : State} (hfiber : t.fiber = s.fiber) (hn : t.nfibers = s.nfibers)
      (hheap : t.heap = s.heap) (hnm : t.nmsgs = s.nmsgs) (hepoll : t.epoll = s.epoll)
      (hsocket : t.socket = s.socket) (hactive : t.active = s.active) : Owned t :=
    ho.congr hfiber hn (by funext m; simp only [State.kind, hheap]) hnm hepoll hsocket hactive
      fun hne => absurd hf hne
  cases a <;> simp only [LinuxIo.stepLoop, reduceCtorEq] at h
  case eventLoop =>
    split at h
    · cases h
      exact hframe rfl rfl rfl rfl rfl rfl rfl
    · split at h <;> cases h
      · refine Owned.processFn ?_ hf
        exact hframe rfl rfl rfl rfl rfl rfl rfl
      · exact hframe rfl rfl rfl rfl rfl rfl rfl
    · split at h <;> cases h
      refine Owned.processFn ?_ hf
      exact hframe rfl rfl rfl rfl rfl rfl rfl
    · cases h
      exact hframe rfl rfl rfl rfl rfl rfl rfl
    · cases h
      exact hframe rfl rfl rfl rfl rfl rfl rfl
  case pollSocket fd =>
    split at h
    · split at h <;> cases h
      exact hframe rfl rfl rfl rfl rfl rfl rfl
    · cases h
  case pollFile m =>
    split at h
    · split at h
      · split at h <;> cases h
        · rename_i hm
          refine Owned.store ?_ hm (by simp only [Message.erase])
          exact hframe rfl rfl rfl rfl rfl rfl rfl
        · exact hframe rfl rfl rfl rfl rfl rfl rfl
        · exact hframe rfl rfl rfl rfl rfl rfl rfl
      · cases h
    · cases h
  case schedule f =>
    split at h <;> cases h
    rename_i hc
    exact ho.schedule hf hc.1 hc.2
  case wake f =>
    split at h <;> cases h
    rename_i hb
    exact ho.setStatus (by simp [hf]) (by simp) (ho.lt_nfibers (by simp [hb]))

theorem Owned.stepRemote (ho : Owned s) {a : Action} (h : stepRemote s a = some t) : Owned t := by
  cases a <;> simp only [LinuxIo.stepRemote, reduceCtorEq] at h
  case remoteReply m =>
    split at h
    · split at h <;> cases h
      rename_i hm _
      exact (ho.store hm (by simp only [Message.erase])).congr rfl rfl rfl rfl rfl rfl rfl
        fun _ => rfl
    · cases h
  case remoteRequest =>
    cases h
    exact (ho.alloc .foreign).congr rfl rfl rfl rfl rfl rfl rfl fun _ => rfl

theorem Owned.stepFiber (ho : Owned s) (hf : s.active = some f) {a : Action}
    (h : stepFiber s f a = some t) : Owned t := by
  have hfresh := ho.heap s.nmsgs (Nat.le_refl _)
  cases a <;> simp only [LinuxIo.stepFiber, reduceCtorEq] at h
  case yield =>
    split at h <;> cases h
    exact ho.leave hf (by simp)
  case block linked =>
    split at h <;> cases h
    exact ho.leave hf (by simp)
  case wake g =>
    split at h <;> cases h
    rename_i hb
    refine ho.setStatus (fun hg => ?_) (by simp) (ho.lt_nfibers (by simp [hb]))
    simp [(ho.fiber g).active.mpr hg] at hb
  case spawn =>
    cases h
    exact ho.spawn none
  case terminate =>
    split at h <;> cases h
    exact ho.leave hf (by simp)
  case handlerEnd =>
    split at h
    · rename_i m hpc hm
      have hmove : Owned { s.setFiber f ⟨.terminated, .user, none⟩ with active := none } :=
        ho.move hf (x := ⟨.terminated, .user, none⟩) (by simp [Pc.owned]) (by simp) (by simp)
      split at h <;> cases h
      · rename_i g r hg
        have hst : Owned (State.store _ m (some (.lambda g true))) :=
          hmove.store hg (by simp only [Message.erase])
        exact hst.congr rfl rfl rfl rfl rfl rfl rfl fun _ => rfl
      · exact hmove.finish (by assumption) rfl
      · exact hmove
      · exact hmove.congr rfl rfl rfl rfl rfl rfl rfl fun _ => rfl
    · cases h
  case runAt remote =>
    split at h
    · have hs : Owned ((s.alloc (.lambda f false)).suspend f s.nmsgs (.runAt s.nmsgs)) := by
        refine (ho.alloc _).suspend hf ?_ (by simp) (by simp)
        intro m msg h
        simp only [Pc.owned, Option.some.injEq, Prod.mk.injEq] at h
        obtain ⟨rfl, rfl⟩ := h
        simp [kind_alloc, Message.erase]
      split at h <;> cases h <;> exact hs.congr rfl rfl rfl rfl rfl rfl rfl fun _ => rfl
    · cases h
  case runAtReturn =>
    split at h <;> cases h
    rename_i m hpc
    exact ho.return hf (by rw [hpc, Pc.owned]) (by simp [Pc.owned]) (by simp)
  case runAtAsync remote =>
    split at h
    · split at h <;> cases h
      · exact ho
      · exact (ho.alloc .oneWay).congr rfl rfl rfl rfl rfl rfl rfl fun _ => rfl
    · cases h

theorem Owned.stepFile (ho : Owned s) (hf : s.active = some f) {a : Action}
    (h : stepFile s f a = some t) : Owned t := by
  have howned := (ho.fiber f).owned
  cases a <;> simp only [LinuxIo.stepFile, reduceCtorEq] at h
  case fileIo =>
    split at h <;> cases h
    refine (ho.alloc _).setPc hf ?_ (by simp) (by simp)
    intro m msg h
    simp only [Pc.owned, Option.some.injEq, Prod.mk.injEq] at h
    obtain ⟨rfl, rfl⟩ := h
    simp [kind_alloc, Message.erase]
  case processBatch total =>
    split at h <;> cases h
    refine (ho.alloc _).setPc hf ?_ (by simp) (by simp)
    intro m msg h
    simp only [Pc.owned, Option.some.injEq, Prod.mk.injEq] at h
    obtain ⟨rfl, rfl⟩ := h
    simp [kind_alloc, Message.erase]
  case ioSubmit res =>
    split at h
    · rename_i m hpc
      simp only [hpc, Pc.owned] at howned
      have hsub : Owned (s.submitAio m 1) :=
        ho.congr rfl rfl rfl rfl rfl rfl rfl fun _ => rfl
      split at h
      · cases h
        exact ho.return hf (by rw [hpc, Pc.owned]) (by simp [Pc.owned]) (by simp)
      · split at h
        · cases h
          exact ho
        · split at h <;> cases h
          exact hsub.suspend hf howned (by simp) (by simp)
    · rename_i m total done hpc
      simp only [hpc, Pc.owned] at howned
      split at h
      · split at h
        · cases h
          exact ho.return hf (by rw [hpc, Pc.owned]) (by simp [Pc.owned]) (by simp)
        · split at h <;> cases h
          obtain ⟨msg, hmsg, hk⟩ := Option.map_eq_some_iff.mp (howned m _ rfl)
          have hst : Owned (s.store m (some (.multiIo f res.toNat))) :=
            ho.store hmsg (by rw [hk]; simp only [Message.erase])
          have hkind : (s.store m (some (.multiIo f res.toNat))).kind = s.kind :=
            kind_store_eq hmsg (by rw [hk]; simp only [Message.erase])
          have hsub : Owned ((s.store m (some (.multiIo f res.toNat))).submitAio m res.toNat) :=
            hst.congr rfl rfl rfl rfl rfl rfl rfl fun _ => rfl
          refine hsub.suspend hf (fun m' msg' h' => ?_) (by simp) (by simp)
          change (s.store m (some (.multiIo f res.toNat))).kind m' = some msg'
          rw [hkind]
          exact howned m' msg' h'
      · cases h
    · cases h
  case ioReturn =>
    split at h
    · cases h
      rename_i m hpc
      exact ho.return hf (by rw [hpc, Pc.owned]) (by simp [Pc.owned]) (by simp)
    · cases h
      rename_i m total done k hpc
      simp only [hpc, Pc.owned] at howned
      exact ho.setPc hf howned (by simp) (by simp)
    · split at h <;> cases h
      rename_i m total done hpc _
      exact ho.return hf (by rw [hpc, Pc.owned]) (by simp [Pc.owned]) (by simp)
    · cases h

theorem Owned.setSocket (ho : Owned s) {fd : Fd} {x : Socket} {data : Option MsgId}
    (hconn : ∀ m, x = .connection m → data = some m ∧ ∃ f, s.kind m = some (.fiberIo f 0))
    (hclosed : x = .closed → data = none)
    (hdata : ∀ m, data = some m → m < s.nmsgs ∧ ∀ fd', s.epoll fd' ≠ some m)
    (haccept : ∀ g, (s.fiber g).pc = .accept fd → x = .server)
    (hwait : ∀ g m, (s.fiber g).pc = .acceptWait fd m → x = .server ∧ data = some m) :
    Owned ((s.register fd data).setSocket fd x) := by
  obtain ⟨h1, h2, h3, h4, h5, h6, h7⟩ := ho
  refine ⟨fun g => ?_, h2, ?_, ?_, ?_, ?_, h7⟩
  · obtain ⟨g1, g2, g3, g4, g5⟩ := h1 g
    refine ⟨g1, g2, g3, fun fd' h => ?_, fun fd' m h => ?_⟩ <;>
      simp only [State.register, State.setSocket, Function.update_apply]
    · by_cases hfd : fd' = fd
      · rw [if_pos hfd]
        exact haccept g (hfd ▸ h)
      · rw [if_neg hfd]
        exact g4 fd' h
    · by_cases hfd : fd' = fd
      · simp only [if_pos hfd]
        exact hwait g m (hfd ▸ h)
      · simp only [if_neg hfd]
        exact g5 fd' m h
  all_goals
    simp only [State.register, State.setSocket, Function.update_apply]
  · intro fd' m h
    by_cases hfd : fd' = fd
    · simp only [if_pos hfd] at h ⊢
      exact hconn m h
    · simp only [if_neg hfd] at h ⊢
      exact h3 fd' m h
  · intro fd' h
    by_cases hfd : fd' = fd
    · simp only [if_pos hfd] at h ⊢
      exact hclosed h
    · simp only [if_neg hfd] at h ⊢
      exact h4 fd' h
  · intro fd' m h
    by_cases hfd : fd' = fd
    · simp only [if_pos hfd] at h
      exact (hdata m h).1
    · simp only [if_neg hfd] at h
      exact h5 fd' m h
  · intro fd' fd'' m h h'
    by_cases hfd : fd' = fd <;> by_cases hfd' : fd'' = fd
    · rw [hfd, hfd']
    · simp only [if_pos hfd, if_neg hfd'] at h h'
      exact absurd h' ((hdata m h).2 fd'')
    · simp only [if_neg hfd, if_pos hfd'] at h h'
      exact absurd h ((hdata m h').2 fd')
    · simp only [if_neg hfd, if_neg hfd'] at h h'
      exact h6 fd' fd'' m h h'

theorem Owned.lt_nmsgs (ho : Owned s) {msg : Message} (h : s.kind m = some msg) : m < s.nmsgs := by
  by_contra hge
  simp [ho.heap m (Nat.not_lt.mp hge)] at h

theorem Owned.epoll_ne (ho : Owned s) {fd : Fd} : s.epoll fd ≠ some s.nmsgs := by
  intro h
  exact Nat.lt_irrefl _ (ho.data fd _ h)

theorem Owned.listen (ho : Owned s) {fd : Fd} (hclosed : s.socket fd = .closed) :
    Owned (s.setSocket fd .server) := by
  have hnone := ho.closed fd hclosed
  have hs : Owned ((s.register fd none).setSocket fd .server) := by
    refine ho.setSocket (by simp) (by simp) (by simp) (by simp) fun g m hw => ?_
    have hsrv := ((ho.fiber g).acceptWait fd m hw).1
    simp [hclosed] at hsrv
  refine hs.congr rfl rfl rfl rfl ?_ rfl rfl fun _ => rfl
  simp only [State.register, State.setSocket, ← hnone, Function.update_eq_self]

theorem Owned.closeServer (ho : Owned s) {fd : Fd}
    (hidle : ∀ g < s.nfibers, (s.fiber g).pc ≠ .accept fd ∧
      ∀ m < s.nmsgs, (s.fiber g).pc ≠ .acceptWait fd m) :
    Owned ((s.register fd none).setSocket fd .closed) := by
  have hlt (g : FiberId) (hg : (s.fiber g).pc ≠ .user) : g < s.nfibers := by
    by_contra hge
    simp [(ho.fiber g).fresh (Nat.not_lt.mp hge)] at hg
  apply ho.setSocket
  · simp
  · simp
  · simp
  · intro g hg
    exact absurd hg (hidle g (hlt g (by simp [hg]))).1
  · intro g m hg
    have hm := ho.lt_nmsgs ((ho.fiber g).owned m (.fiberIo g 0) (by rw [hg, Pc.owned]))
    exact absurd hg ((hidle g (hlt g (by simp [hg]))).2 m hm)

theorem Owned.connect (ho : Owned s) {cfd : Fd} (hclosed : s.socket cfd = .closed) :
    Owned (((s.alloc (.fiberIo f 1)).register cfd (some s.nmsgs)).setSocket cfd
      (.connection s.nmsgs)) := by
  apply (ho.alloc _).setSocket
  · intro m hm
    cases hm
    exact ⟨rfl, f, by simp [kind_alloc, Message.erase]⟩
  · simp
  · intro m hm
    cases hm
    exact ⟨Nat.lt_succ_self _, fun fd' => ho.epoll_ne⟩
  · intro g hg
    have hsrv := (ho.fiber g).accept cfd hg
    simp [hclosed] at hsrv
  · intro g m hg
    have hsrv := ((ho.fiber g).acceptWait cfd m hg).1
    simp [hclosed] at hsrv

theorem Owned.acceptWait (ho : Owned s) (hf : s.active = some f) {fd : Fd}
    (hsrv : s.socket fd = .server) (hnone : s.epoll fd = none) :
    Owned (((s.alloc (.fiberIo f 1)).register fd (some s.nmsgs)).suspend f s.nmsgs
      (.acceptWait fd s.nmsgs)) := by
  have hs : Owned (((s.alloc (.fiberIo f 1)).register fd (some s.nmsgs)).setSocket fd .server) := by
    refine (ho.alloc _).setSocket (by simp) (by simp) ?_ (by simp) fun g m hg => ?_
    · intro m hm
      cases hm
      exact ⟨Nat.lt_succ_self _, fun fd' => ho.epoll_ne⟩
    · have he := ((ho.fiber g).acceptWait fd m hg).2
      simp [hnone] at he
  have hs' : Owned ((s.alloc (.fiberIo f 1)).register fd (some s.nmsgs)) := by
    refine hs.congr rfl rfl rfl rfl rfl ?_ rfl fun _ => rfl
    change s.socket = Function.update s.socket fd .server
    rw [← hsrv, Function.update_eq_self]
  apply hs'.suspend hf
  · intro m msg hm
    simp only [Pc.owned, Option.some.injEq, Prod.mk.injEq] at hm
    obtain ⟨rfl, rfl⟩ := hm
    change (s.alloc (.fiberIo f 1)).kind s.nmsgs = _
    simp [kind_alloc, Message.erase]
  · simp
  · intro fd' m hm
    cases hm
    exact ⟨hsrv, Function.update_self _ _ _⟩

theorem Owned.closeConnection (ho : Owned s) {fd : Fd} (hconn : s.socket fd = .connection m) :
    Owned (((s.register fd none).store m none).setSocket fd .closed) := by
  have he := (ho.connection fd m hconn).1
  have hs : Owned ((s.register fd none).setSocket fd .closed) := by
    refine ho.setSocket (by simp) (by simp) (by simp) (fun g hg => ?_) fun g m hg => ?_
    · simp [(ho.fiber g).accept fd hg] at hconn
    · simp [((ho.fiber g).acceptWait fd m hg).1] at hconn
  refine hs.free (fun g msg hg => ho.not_connection hg fd hconn) fun fd' hfd' => ?_
  by_cases hfd : fd' = fd
  · simp [State.register, State.setSocket, hfd] at hfd'
  · simp only [State.register, State.setSocket, Function.update_of_ne hfd] at hfd'
    exact hfd (ho.data_inj fd' fd m (ho.connection fd' m hfd').1 he)

theorem Owned.stepSocket (ho : Owned s) (hf : s.active = some f) {a : Action}
    (h : stepSocket s f a = some t) : Owned t := by
  cases a <;> simp only [LinuxIo.stepSocket, reduceCtorEq] at h
  case listen fd =>
    split at h <;> cases h
    rename_i hc
    exact ho.listen hc.2
  case closeServer fd =>
    split at h <;> cases h
    rename_i hc
    exact ho.closeServer hc.2.2
  case accept fd =>
    split at h <;> cases h
    rename_i hc
    exact ho.setPc hf (by simp [Pc.owned]) (by simp [hc.2]) (by simp)
  case acceptResult r =>
    split at h
    · rename_i fd hpc
      have hidle : Owned (s.setPc f .user) :=
        ho.setPc hf (by simp [Pc.owned]) (by simp) (by simp)
      split at h
      · rename_i cfd
        split at h
        · rename_i hclosed
          simp only [ho.closed cfd hclosed, Option.some.injEq] at h
          subst h
          exact (ho.connect hclosed).setPc hf (by simp [Pc.owned]) (by simp) (by simp)
        · cases h
      · split at h <;> cases h
        · exact hidle.congr rfl rfl rfl rfl rfl rfl rfl fun _ => rfl
        · rename_i hnone
          exact ho.acceptWait hf ((ho.fiber f).accept fd hpc) hnone
      · cases h
        exact hidle
    · cases h
  case acceptContinue =>
    split at h <;> cases h
    rename_i fd m hpc
    refine ho.return hf (by rw [hpc, Pc.owned]) (by simp [Pc.owned]) ?_
    intro fd' hfd
    cases hfd
    exact ((ho.fiber f).acceptWait fd m hpc).1
  case transfer fd =>
    split at h
    · split at h
      · split at h <;> cases h
        · exact ho.setPc hf (by simp [Pc.owned]) (by simp) (by simp)
        · exact ho.congr rfl rfl rfl rfl rfl rfl rfl fun _ => rfl
      · cases h
        exact ho.congr rfl rfl rfl rfl rfl rfl rfl fun _ => rfl
    · cases h
  case transferResult res =>
    split at h
    · split at h
      · split at h <;> cases h
        · exact ho.suspend hf (by simp [Pc.owned]) (by simp) (by simp)
        · exact ho.setPc hf (by simp [Pc.owned]) (by simp) (by simp)
      · cases h
    · cases h
  case closeConnection fd =>
    split at h
    · split at h <;> cases h
      rename_i hconn _
      exact ho.closeConnection hconn
    · cases h

theorem Owned.step (ho : Owned s) {a : Action} (h : step s a = some t) : Owned t := by
  simp only [LinuxIo.step] at h
  split at h
  · cases h
  · rcases Option.or_eq_some_iff.mp h with h | ⟨-, h⟩
    · exact ho.stepRemote h
    · split at h
      · exact ho.stepLoop (by assumption) h
      · rename_i f hf
        rcases Option.or_eq_some_iff.mp h with h | ⟨-, h⟩
        · rcases Option.or_eq_some_iff.mp h with h | ⟨-, h⟩
          · exact ho.stepFiber hf h
          · exact ho.stepFile hf h
        · exact ho.stepSocket hf h

end Dumbo.Reactor.LinuxIo
