import Dumbo.Reactor.LoopLifetime

/-!
# What `Application::run` is sure of

The message with the application's function is in the inbox before the loop begins. The loop goes round once at
least, and it is not left before the fibers that it has started have ended, so that `run` finds the result of
the function in its message; a message that is submitted later may be lost.
-/

namespace Dumbo.Reactor.EventLoop

open Transition
open Fiber.Scheduler (CtxId mainCtx dispatcherCtx Scheduled)

variable {s t u : State} {a : Action} {as : List Action} {early : List MsgId} {m : MsgId} {c : CtxId}

/-- A fiber that has a message to process has not ended. -/
def Attended (s : State) : Prop := ∀ c m, s.handler c = some m → dispatcherCtx < c ∧ s.sched.Live c

/-- The message has been received, and it is not lost. -/
def State.AtHand (s : State) (m : MsgId) : Prop :=
  m ∈ s.loop.batch ∨ (∃ c, s.handler c = some m) ∨ (s.processed m = true ∧ s.finished m = true)

/-- The main context is on its first way to `receive_all`. -/
structure State.First (s : State) (early : List MsgId) : Prop where
  active : s.sched.active = mainCtx
  running : s.running = true
  loop : s.loop = .test ∨ s.loop = .poll ∨ s.loop = .drain
  inbox : ∀ m ∈ early, m ∈ s.inbox

/-- A message to be processed once, and not sent back. -/
def State.Plain (s : State) (m : MsgId) : Prop :=
  m < s.nmsgs ∧ (s.message m).oneWay = true ∧ (s.message m).isReturn = false

/-- Before the loop nothing is received, and no call waits for an answer. -/
structure Before (s : State) : Prop where
  inbox : s.loop = .outside → s.accepted = s.inbox
  handler : s.loop = .outside → ∀ c, s.handler c = none
  plain : s.loop = .outside → ∀ m ∈ s.accepted, s.Plain m

/-- What holds in the loop of the messages that were there before it. -/
structure Served (early : List MsgId) (s : State) : Prop where
  inside : s.loop ≠ .outside
  plain : ∀ m ∈ early, s.Plain m
  place : s.First early ∨ ∀ m ∈ early, s.AtHand m

/-! ### The operations -/

theorem resume_frame (s : State) (c : CtxId) : ∃ sched fault,
    s.resume c = { s with sched := sched, fault := fault } ∧ sched.active = s.sched.active := by
  rw [State.resume]
  split
  · exact ⟨s.sched, true, rfl, rfl⟩
  · exact ⟨s.sched.wake c, s.fault, rfl, Fiber.Scheduler.wake_active s.sched c⟩

theorem resume_live (hu : s.sched.InUser) {d : CtxId} (hd : s.sched.Live d) : (s.resume c).sched.Live d := by
  rw [State.resume]
  split
  · exact hd
  · rename_i hw
    have hs : Fiber.Scheduler.step s.sched (.wake c) = some (s.sched.wake c) :=
      if_pos (decide_eq_true ⟨hu, hw⟩)
    exact Fiber.Scheduler.step_live hs (by simp) hd

theorem Attended.keep (h : Attended s) (hlive : ∀ d, s.sched.Live d → t.sched.Live d)
    (hhandler : ∀ d m, t.handler d = some m → s.handler d = some m) : Attended t := by
  intro d m hd
  obtain ⟨hworker, hl⟩ := h d m (hhandler d m hd)
  exact ⟨hworker, hlive d hl⟩

theorem Attended.sched (h : Attended s) (hin : InLoop s) {b : Fiber.Scheduler.Action}
    {v : Fiber.Scheduler.State} (hmay : s.mayCall b = true) (hv : Fiber.Scheduler.step s.sched b = some v) :
    Attended { s with sched := v } := by
  by_cases hend : b = .setTerminated
  · subst hend
    obtain ⟨hen, rfl⟩ := Fiber.Scheduler.step_perform hv
    obtain ⟨huser, hmain⟩ := of_decide_eq_true hen
    obtain ⟨-, hreg⟩ := hin.scheduled.toConsistent.setTerminated huser hmain
    intro d m hd
    obtain ⟨hworker, hlive⟩ := h d m hd
    refine ⟨hworker, ?_⟩
    have hne : d ≠ s.sched.active := by
      rintro rfl
      cases hd.symm.trans (of_decide_eq_true hmay)
    simp only [Fiber.Scheduler.perform, hreg]
    exact ⟨hlive.1, by simpa only [Function.update_of_ne hne] using hlive.2⟩
  · exact h.keep (fun d hd => Fiber.Scheduler.step_live hv hend hd) fun d m hd => hd

theorem Attended.spawn (h : Attended s) (hin : InLoop s) (hu : s.sched.InUser) (m : MsgId) :
    Attended { s with
      sched := (s.sched.create .post).reset s.sched.ncreated
      handler := Function.update s.handler s.sched.ncreated (some m) } := by
  have hcreate : Fiber.Scheduler.step s.sched (.create .post) = some (s.sched.create .post) :=
    if_pos (decide_eq_true hu)
  have hreset : ∀ d, (s.sched.create .post).Live d →
      ((s.sched.create .post).reset s.sched.ncreated).Live d := by
    intro d hd
    refine ⟨?_, ?_⟩
    · rw [Fiber.Scheduler.reset_ncreated]
      exact hd.1
    · rw [Fiber.Scheduler.reset_terminated]
      exact hd.2
  intro d x hd
  by_cases hdn : d = s.sched.ncreated
  · rw [hdn]
    exact ⟨hin.scheduled.registered.system, hreset _ hin.scheduled.create_live⟩
  · change Function.update s.handler s.sched.ncreated (some m) d = some x at hd
    rw [Function.update_of_ne hdn] at hd
    obtain ⟨hworker, hlive⟩ := h d x hd
    exact ⟨hworker, hreset d (Fiber.Scheduler.step_live hcreate (by simp) hlive)⟩

theorem Attended.processFn (h : Attended s) (hin : InLoop s) (hu : s.sched.InUser) (m : MsgId) :
    Attended (s.processFn m) := by
  rw [State.processFn]
  split
  · rw [State.finish]
    dsimp only
    split
    · exact h
    · rename_i d hd
      let v : State := { s with finished := Function.update s.finished m true }
      obtain ⟨sched, fault, heq, -⟩ := resume_frame v d
      refine h.keep (fun x hx => resume_live (s := v) hu hx) ?_
      intro x y hx
      change (v.resume d).handler x = some y at hx
      rwa [heq] at hx
  · exact h.spawn hin hu m

theorem Attended.step (h : Attended s) (hin : InLoop s) (hs : step s a = some t) : Attended t := by
  have huser : ∀ {pc}, s.atLoop pc → pc ≠ .outside → s.sched.InUser := by
    intro pc hl hpc
    exact hin.main_inUser (hl.2 ▸ hpc) hl.1
  cases a with
  | sched b =>
    simp only [EventLoop.step, Option.ite_none_right_eq_some, Option.map_eq_some_iff] at hs
    obtain ⟨⟨-, hmay⟩, v, hv, rfl⟩ := hs
    exact h.sched hin hmay hv
  | runAt =>
    simp only [EventLoop.step, Option.ite_none_right_eq_some, Option.some.injEq] at hs
    obtain ⟨⟨-, hf, -⟩, rfl⟩ := hs
    have hsuspend : Fiber.Scheduler.step s.sched (.suspend reactorQueue) =
      some (s.sched.suspend reactorQueue) := if_pos (decide_eq_true hf.1)
    exact h.keep (fun d hd => Fiber.Scheduler.step_live hsuspend (by simp) hd) fun d m hd => hd
  | runAtAsync =>
    simp only [EventLoop.step, Option.ite_none_right_eq_some, Option.some.injEq] at hs
    obtain ⟨-, rfl⟩ := hs
    exact h
  | stop =>
    simp only [EventLoop.step, Option.ite_none_right_eq_some, Option.some.injEq] at hs
    obtain ⟨-, rfl⟩ := hs
    exact h
  | complete =>
    simp only [EventLoop.step] at hs
    split at hs
    · rename_i m hm
      obtain ⟨-, rfl⟩ := Option.ite_none_right_eq_some.mp hs |>.imp_right Option.some.inj
      apply h.keep
      · intro d hd
        rw [State.complete]
        dsimp only
        split
        · exact hd
        · exact hd
      · intro d x hd
        have hhandler : (s.complete s.sched.active m).handler =
            Function.update s.handler s.sched.active none := by
          rw [State.complete]
          dsimp only
          split
          · rfl
          · rfl
        rw [hhandler] at hd
        by_cases hda : d = s.sched.active
        · rw [hda, Function.update_self] at hd
          cases hd
        · rwa [Function.update_of_ne hda] at hd
    · cases hs
  | run =>
    simp only [EventLoop.step, Option.ite_none_right_eq_some, Option.some.injEq] at hs
    obtain ⟨-, rfl⟩ := hs
    have hset := Fiber.Scheduler.setAlgo_eq hin.scheduled.ready_nodup .reactor
    apply h.keep
    · intro d hd
      change (s.sched.setAlgo .reactor).Live d
      rw [hset]
      exact hd
    · exact fun d m hd => hd
  | test =>
    simp only [EventLoop.step, Option.ite_none_right_eq_some] at hs
    obtain ⟨-, hs⟩ := hs
    split at hs <;> cases hs
    · exact h
    · exact h
  | poll events =>
    simp only [EventLoop.step, Option.ite_none_right_eq_some, Option.some.injEq] at hs
    obtain ⟨-, rfl⟩ := hs
    exact h
  | drain =>
    simp only [EventLoop.step, Option.ite_none_right_eq_some] at hs
    obtain ⟨⟨-, hl⟩, hs⟩ := hs
    split at hs
    · cases hs
    · cases hs
      exact h
    · rename_i d rest hring
      cases hs
      let v : State := { s with ring := rest }
      obtain ⟨sched, fault, heq, -⟩ := resume_frame v d
      refine h.keep (fun x hx => resume_live (s := v) (huser hl (by simp)) hx) ?_
      intro x y hx
      change (v.resume d).handler x = some y at hx
      rwa [heq] at hx
  | receiveAll =>
    simp only [EventLoop.step, Option.ite_none_right_eq_some, Option.some.injEq] at hs
    obtain ⟨-, rfl⟩ := hs
    exact h
  | receive =>
    simp only [EventLoop.step] at hs
    split at hs
    · rename_i m rest hl
      obtain ⟨⟨-, ha⟩, rfl⟩ := Option.ite_none_right_eq_some.mp hs |>.imp_right Option.some.inj
      have hmove : InLoop { s with loop := .receive rest } := hin.setLoop (by simp [hl]) (by simp)
      have hrest : Attended { s with loop := .receive rest } := h
      exact hrest.processFn hmove (hin.main_inUser (by simp [hl]) ha) m
    · cases hs
  | yield =>
    simp only [EventLoop.step, Option.ite_none_right_eq_some, Option.some.injEq] at hs
    obtain ⟨⟨-, hl⟩, rfl⟩ := hs
    have hyield : Fiber.Scheduler.step s.sched .yield = some s.sched.yield :=
      if_pos (decide_eq_true (huser hl (by simp)))
    exact h.keep (fun d hd => Fiber.Scheduler.step_live hyield (by simp) hd) fun d m hd => hd

/-! ### Before the loop -/

theorem State.Plain.make (h : s.Plain m) (msg : Message) : (s.make msg).Plain m := by
  obtain ⟨hlt, hone⟩ := h
  refine ⟨Nat.lt_succ_of_lt hlt, ?_⟩
  show (Function.update s.message s.nmsgs _ m).oneWay = true ∧
    (Function.update s.message s.nmsgs _ m).isReturn = false
  rwa [Function.update_of_ne (Nat.ne_of_lt hlt)]

theorem plain_send (h : ∀ m ∈ early, s.Plain m) :
    ∀ m ∈ early ++ [s.nmsgs], ((s.make ⟨true, false, none⟩).submitTo s.nmsgs).Plain m := by
  intro m hm
  rcases List.mem_append.mp hm with hm | hm
  · exact (h m hm).make ⟨true, false, none⟩
  · rw [List.mem_singleton.mp hm]
    refine ⟨Nat.lt_succ_self _, ?_⟩
    show (Function.update s.message s.nmsgs _ s.nmsgs).oneWay = true ∧
      (Function.update s.message s.nmsgs _ s.nmsgs).isReturn = false
    rw [Function.update_self]
    exact ⟨rfl, rfl⟩

theorem processFn_inside (hl : s.loop ≠ .outside) (m : MsgId) : (s.processFn m).loop ≠ .outside := by
  rwa [(processFn_handled m).2.2.2]

theorem processFn_running (m : MsgId) : (s.processFn m).running = s.running := by
  rw [State.processFn]
  split
  · rw [State.finish]
    dsimp only
    split
    · rfl
    · rename_i d hd
      obtain ⟨sched, fault, heq, -⟩ := resume_frame { s with finished := Function.update s.finished m true } d
      rw [heq]
  · rfl

theorem stays_inside (hl : s.loop ≠ .outside) (hs : step s a = some t) : t.loop ≠ .outside := by
  cases a with
  | sched b =>
    simp only [EventLoop.step, Option.ite_none_right_eq_some, Option.map_eq_some_iff] at hs
    obtain ⟨-, v, -, rfl⟩ := hs
    exact hl
  | runAt | runAtAsync | stop =>
    simp only [EventLoop.step, Option.ite_none_right_eq_some, Option.some.injEq] at hs
    obtain ⟨-, rfl⟩ := hs
    exact hl
  | complete =>
    simp only [EventLoop.step] at hs
    split at hs
    · obtain ⟨-, rfl⟩ := Option.ite_none_right_eq_some.mp hs |>.imp_right Option.some.inj
      rw [State.complete]
      dsimp only
      split
      · exact hl
      · exact hl
    · cases hs
  | run | poll events | receiveAll | yield =>
    simp only [EventLoop.step, Option.ite_none_right_eq_some, Option.some.injEq] at hs
    obtain ⟨-, rfl⟩ := hs
    simp
  | test =>
    simp only [EventLoop.step, Option.ite_none_right_eq_some] at hs
    obtain ⟨-, hs⟩ := hs
    split at hs <;> cases hs <;> simp
  | drain =>
    simp only [EventLoop.step, Option.ite_none_right_eq_some] at hs
    obtain ⟨-, hs⟩ := hs
    split at hs
    · cases hs
    · cases hs
      exact hl
    · rename_i c rest hring
      cases hs
      obtain ⟨sched, fault, heq, -⟩ := resume_frame { s with ring := rest } c
      rw [heq]
      exact hl
  | receive =>
    simp only [EventLoop.step] at hs
    split at hs
    · obtain ⟨-, rfl⟩ := Option.ite_none_right_eq_some.mp hs |>.imp_right Option.some.inj
      exact processFn_inside (by simp) _
    · cases hs

theorem Before.of_loop (ht : t.loop ≠ .outside) : Before t :=
  ⟨fun hl => absurd hl ht, fun hl => absurd hl ht, fun hl => absurd hl ht⟩

theorem Before.step (h : Before s) (hs : step s a = some t) : Before t := by
  by_cases hl : s.loop = .outside
  · cases a with
    | sched b =>
      simp only [EventLoop.step, Option.ite_none_right_eq_some, Option.map_eq_some_iff] at hs
      obtain ⟨-, v, -, rfl⟩ := hs
      exact ⟨h.inbox, h.handler, h.plain⟩
    | runAt =>
      simp only [EventLoop.step, Option.ite_none_right_eq_some] at hs
      exact absurd hl hs.1.2.2
    | runAtAsync =>
      simp only [EventLoop.step, Option.ite_none_right_eq_some, Option.some.injEq] at hs
      obtain ⟨-, rfl⟩ := hs
      refine ⟨fun _ => ?_, h.handler, fun _ m hm => ?_⟩
      · show s.accepted ++ [s.nmsgs] = s.inbox ++ [s.nmsgs]
        rw [h.inbox hl]
      · exact plain_send (h.plain hl) m hm
    | stop =>
      simp only [EventLoop.step, Option.ite_none_right_eq_some, Option.some.injEq] at hs
      obtain ⟨-, rfl⟩ := hs
      exact ⟨h.inbox, h.handler, h.plain⟩
    | complete =>
      simp only [EventLoop.step, h.handler hl] at hs
      cases hs
    | run =>
      simp only [EventLoop.step, Option.ite_none_right_eq_some, Option.some.injEq] at hs
      obtain ⟨-, rfl⟩ := hs
      exact .of_loop (by simp)
    | test =>
      simp only [EventLoop.step, Option.ite_none_right_eq_some] at hs
      cases hs.1.2.2.symm.trans hl
    | poll events =>
      simp only [EventLoop.step, Option.ite_none_right_eq_some] at hs
      cases hs.1.2.2.symm.trans hl
    | drain =>
      simp only [EventLoop.step, Option.ite_none_right_eq_some] at hs
      cases hs.1.2.2.symm.trans hl
    | receiveAll =>
      simp only [EventLoop.step, Option.ite_none_right_eq_some] at hs
      cases hs.1.2.1.2.symm.trans hl
    | receive =>
      simp only [EventLoop.step, hl] at hs
      cases hs
    | yield =>
      simp only [EventLoop.step, Option.ite_none_right_eq_some] at hs
      cases hs.1.2.2.symm.trans hl
  · exact .of_loop (stays_inside hl hs)

/-! ### In the loop -/

theorem State.AtHand.congr (h : s.AtHand m) (hbatch : m ∈ s.loop.batch → m ∈ t.loop.batch)
    (hhandler : t.handler = s.handler) (hdone : t.processed = s.processed ∧ t.finished = s.finished) :
    t.AtHand m := by
  rw [State.AtHand, hhandler, hdone.1, hdone.2]
  exact h.imp_left hbatch

theorem Served.atHand (h : Served early s) (hf : s.InFiber) : ∀ m ∈ early, s.AtHand m := by
  apply h.place.resolve_left
  intro hfirst
  exact h.inside (hf.2 hfirst.active)

/-- The loop is past the first `receive_all`. -/
theorem Served.received (h : Served early s) (hl : s.loop ≠ .test ∧ s.loop ≠ .poll ∧ s.loop ≠ .drain) :
    ∀ m ∈ early, s.AtHand m := by
  apply h.place.resolve_left
  intro hfirst
  rcases hfirst.loop with htest | hpoll | hdrain
  · exact hl.1 htest
  · exact hl.2.1 hpoll
  · exact hl.2.2 hdrain

theorem handler_update {d : CtxId} {k : Option MsgId} (hd : s.handler d = some m) (hc : s.handler c ≠ some m) :
    Function.update s.handler c k d = some m := by
  have hne : d ≠ c := by
    rintro rfl
    exact hc hd
  rwa [Function.update_of_ne hne]

theorem complete_atHand {k : MsgId} (hk : s.handler c = some k) (hm : s.Plain m) (h : s.AtHand m) :
    (s.complete c k).AtHand m := by
  rw [State.complete]
  by_cases hmk : m = k
  · subst hmk
    rw [if_pos hm.2.1]
    exact .inr (.inr ⟨Function.update_self .., Function.update_self ..⟩)
  · have hplace : m ∈ s.loop.batch ∨ (∃ d, Function.update s.handler c none d = some m) ∨
        (Function.update s.processed k true m = true ∧ s.finished m = true) := by
      rw [Function.update_of_ne hmk]
      rcases h with hbatch | ⟨d, hd⟩ | hdone
      · exact .inl hbatch
      · have hc : s.handler c ≠ some m := by
          rw [hk]
          exact fun h => hmk (Option.some.inj h).symm
        exact .inr (.inl ⟨d, handler_update hd hc⟩)
      · exact .inr (.inr hdone)
    split
    · show m ∈ s.loop.batch ∨ (∃ d, Function.update s.handler c none d = some m) ∨
        (Function.update s.processed k true m = true ∧ Function.update s.finished k true m = true)
      rwa [Function.update_of_ne hmk true s.finished]
    · exact hplace

theorem complete_plain {k : MsgId} (hm : s.Plain m) : (s.complete c k).Plain m := by
  rw [State.complete]
  split
  · exact hm
  · rename_i hk
    have hmk : m ≠ k := by
      rintro rfl
      exact hk hm.2.1
    refine ⟨hm.1, ?_⟩
    show (Function.update s.message k _ m).oneWay = true ∧ (Function.update s.message k _ m).isReturn = false
    rw [Function.update_of_ne hmk]
    exact hm.2

theorem receive_atHand (hatt : Attended s) {k : MsgId} {rest : List MsgId}
    (hl : s.loop = .receive (k :: rest)) (hm : s.Plain m) (h : s.AtHand m) :
    ({ s with loop := .receive rest : State }.processFn k).AtHand m := by
  rw [State.processFn]
  by_cases hk : (s.message k).isReturn = true
  · have hmk : m ≠ k := by
      rintro rfl
      cases hk.symm.trans hm.2.2
    rw [if_pos hk, State.finish]
    have hrest :
        { s with loop := .receive rest, finished := Function.update s.finished k true : State }.AtHand m := by
      rw [State.AtHand] at h ⊢
      rw [hl] at h
      dsimp only
      rw [Function.update_of_ne hmk]
      exact h.imp_left fun hb => (List.mem_cons.mp hb).resolve_left hmk
    dsimp only
    split
    · exact hrest
    · rename_i d hd
      obtain ⟨sched, fault, heq, -⟩ := resume_frame
        { s with loop := .receive rest, finished := Function.update s.finished k true } d
      rw [heq]
      exact hrest
  · rw [if_neg hk]
    have hfresh : s.handler s.sched.ncreated = none := by
      cases hh : s.handler s.sched.ncreated with
      | none => rfl
      | some x => exact absurd (hatt _ x hh).2.1 (Nat.lt_irrefl _)
    rw [State.AtHand] at h ⊢
    dsimp only
    rw [hl] at h
    rcases h with hb | ⟨d, hd⟩ | hdone
    · rcases List.mem_cons.mp hb with rfl | hb
      · exact .inr (.inl ⟨s.sched.ncreated, Function.update_self ..⟩)
      · exact .inl hb
    · have hc : s.handler s.sched.ncreated ≠ some m := by
        rw [hfresh]
        exact (Option.some_ne_none m).symm
      exact .inr (.inl ⟨d, handler_update hd hc⟩)
    · exact .inr (.inr hdone)

theorem processFn_plain {k : MsgId} (hm : s.Plain m) : (s.processFn k).Plain m := by
  rw [State.processFn]
  split
  · rw [State.finish]
    dsimp only
    split
    · exact hm
    · rename_i d hd
      obtain ⟨sched, fault, heq, -⟩ := resume_frame { s with finished := Function.update s.finished k true } d
      rw [heq]
      exact hm
  · exact hm

theorem Served.step (h : Served early s) (hatt : Attended s) (hs : step s a = some t) :
    Served early t := by
  have hinside := stays_inside h.inside hs
  cases a with
  | sched b =>
    simp only [EventLoop.step, Option.ite_none_right_eq_some, Option.map_eq_some_iff] at hs
    obtain ⟨⟨-, hmay⟩, v, hv, rfl⟩ := hs
    refine ⟨hinside, h.plain, .inr ?_⟩
    apply h.place.resolve_left
    intro hfirst
    exact h.inside (mayCall_main hmay (Fiber.Scheduler.step_perform hv).1 hfirst.active)
  | runAt =>
    simp only [EventLoop.step, Option.ite_none_right_eq_some, Option.some.injEq] at hs
    obtain ⟨⟨-, hf, -⟩, rfl⟩ := hs
    exact ⟨hinside, fun m hm => (h.plain m hm).make ⟨false, false, some s.sched.active⟩, .inr (h.atHand hf)⟩
  | runAtAsync =>
    simp only [EventLoop.step, Option.ite_none_right_eq_some, Option.some.injEq] at hs
    obtain ⟨⟨-, hf⟩, rfl⟩ := hs
    exact ⟨hinside, fun m hm => (h.plain m hm).make ⟨true, false, none⟩, .inr (h.atHand hf)⟩
  | stop =>
    simp only [EventLoop.step, Option.ite_none_right_eq_some, Option.some.injEq] at hs
    obtain ⟨⟨-, hf⟩, rfl⟩ := hs
    exact ⟨hinside, h.plain, .inr (h.atHand hf)⟩
  | complete =>
    simp only [EventLoop.step] at hs
    split at hs
    · rename_i k hk
      obtain ⟨⟨-, hf⟩, rfl⟩ := Option.ite_none_right_eq_some.mp hs |>.imp_right Option.some.inj
      refine ⟨hinside, fun m hm => complete_plain (h.plain m hm), .inr ?_⟩
      intro m hm
      exact complete_atHand hk (h.plain m hm) (h.atHand hf m hm)
    · cases hs
  | run =>
    simp only [EventLoop.step, Option.ite_none_right_eq_some] at hs
    exact absurd hs.1.2.1.2 h.inside
  | test =>
    simp only [EventLoop.step, Option.ite_none_right_eq_some] at hs
    obtain ⟨⟨-, hl⟩, hs⟩ := hs
    have hbatch : ∀ m, m ∉ s.loop.batch := by
      rw [hl.2]
      exact fun m => List.not_mem_nil
    split at hs
    · cases hs
      refine ⟨hinside, h.plain, ?_⟩
      rcases h.place with hfirst | hplace
      · exact .inl ⟨hfirst.active, hfirst.running, .inr (.inl rfl), hfirst.inbox⟩
      · exact .inr fun m hm => (hplace m hm).congr (fun hb => absurd hb (hbatch m)) rfl ⟨rfl, rfl⟩
    · rename_i hleave
      cases hs
      refine ⟨hinside, h.plain, .inr fun m hm => ?_⟩
      have hplace := h.place.resolve_left fun hfirst => hleave (.inl hfirst.running)
      exact (hplace m hm).congr (fun hb => absurd hb (hbatch m)) rfl ⟨rfl, rfl⟩
  | poll events =>
    simp only [EventLoop.step, Option.ite_none_right_eq_some, Option.some.injEq] at hs
    obtain ⟨⟨-, hl⟩, rfl⟩ := hs
    have hbatch : ∀ m, m ∉ s.loop.batch := by
      rw [hl.2]
      exact fun m => List.not_mem_nil
    refine ⟨hinside, h.plain, ?_⟩
    rcases h.place with hfirst | hplace
    · exact .inl ⟨hfirst.active, hfirst.running, .inr (.inr rfl), hfirst.inbox⟩
    · exact .inr fun m hm => (hplace m hm).congr (fun hb => absurd hb (hbatch m)) rfl ⟨rfl, rfl⟩
  | drain =>
    simp only [EventLoop.step, Option.ite_none_right_eq_some] at hs
    obtain ⟨-, hs⟩ := hs
    have hrest : ∀ ring, Served early { s with ring := ring } := by
      intro ring
      refine ⟨h.inside, h.plain, ?_⟩
      rcases h.place with hfirst | hplace
      · exact .inl ⟨hfirst.active, hfirst.running, hfirst.loop, hfirst.inbox⟩
      · exact .inr hplace
    split at hs
    · cases hs
    · cases hs
      exact hrest _
    · rename_i d rest hring
      cases hs
      obtain ⟨sched, fault, heq, hactive⟩ := resume_frame { s with ring := rest } d
      rw [heq]
      refine ⟨h.inside, h.plain, ?_⟩
      rcases h.place with hfirst | hplace
      · exact .inl ⟨hactive.trans hfirst.active, hfirst.running, hfirst.loop, hfirst.inbox⟩
      · exact .inr hplace
  | receiveAll =>
    simp only [EventLoop.step, Option.ite_none_right_eq_some, Option.some.injEq] at hs
    obtain ⟨⟨-, hl, -⟩, rfl⟩ := hs
    have hbatch : ∀ m, m ∉ s.loop.batch := by
      rw [hl.2]
      exact fun m => List.not_mem_nil
    refine ⟨hinside, h.plain, .inr fun m hm => ?_⟩
    rcases h.place with hfirst | hplace
    · exact .inl (hfirst.inbox m hm)
    · exact (hplace m hm).congr (fun hb => absurd hb (hbatch m)) rfl ⟨rfl, rfl⟩
  | receive =>
    simp only [EventLoop.step] at hs
    split at hs
    · rename_i k rest hl
      obtain ⟨-, rfl⟩ := Option.ite_none_right_eq_some.mp hs |>.imp_right Option.some.inj
      have hreceived := h.received (by simp [hl])
      refine ⟨hinside, fun m hm => processFn_plain (h.plain m hm), .inr fun m hm => ?_⟩
      exact receive_atHand hatt hl (h.plain m hm) (hreceived m hm)
    · cases hs
  | yield =>
    simp only [EventLoop.step, Option.ite_none_right_eq_some, Option.some.injEq] at hs
    obtain ⟨⟨-, hl⟩, rfl⟩ := hs
    have hreceived := h.received (by simp [hl.2])
    refine ⟨hinside, h.plain, .inr fun m hm => (hreceived m hm).congr ?_ rfl ⟨rfl, rfl⟩⟩
    rw [hl.2]
    exact fun hb => absurd hb List.not_mem_nil

/-! ### The whole run -/

theorem running_step (hr : s.running = true) (hl : s.loop ≠ .left) (hin : s.loop ≠ .outside) (ha : a ≠ .stop)
    (hs : step s a = some t) : t.running = true ∧ t.loop ≠ .left := by
  cases a with
  | sched b =>
    simp only [EventLoop.step, Option.ite_none_right_eq_some, Option.map_eq_some_iff] at hs
    obtain ⟨-, v, -, rfl⟩ := hs
    exact ⟨hr, hl⟩
  | runAt | runAtAsync =>
    simp only [EventLoop.step, Option.ite_none_right_eq_some, Option.some.injEq] at hs
    obtain ⟨-, rfl⟩ := hs
    exact ⟨hr, hl⟩
  | stop => exact absurd rfl ha
  | complete =>
    simp only [EventLoop.step] at hs
    split at hs
    · obtain ⟨-, rfl⟩ := Option.ite_none_right_eq_some.mp hs |>.imp_right Option.some.inj
      rw [State.complete]
      dsimp only
      split
      · exact ⟨hr, hl⟩
      · exact ⟨hr, hl⟩
    · cases hs
  | run =>
    simp only [EventLoop.step, Option.ite_none_right_eq_some] at hs
    exact absurd hs.1.2.1.2 hin
  | test =>
    simp only [EventLoop.step, Option.ite_none_right_eq_some] at hs
    obtain ⟨-, hs⟩ := hs
    rw [if_pos (.inl hr)] at hs
    cases hs
    exact ⟨hr, by simp⟩
  | poll events | receiveAll | yield =>
    simp only [EventLoop.step, Option.ite_none_right_eq_some, Option.some.injEq] at hs
    obtain ⟨-, rfl⟩ := hs
    exact ⟨hr, by simp⟩
  | drain =>
    simp only [EventLoop.step, Option.ite_none_right_eq_some] at hs
    obtain ⟨-, hs⟩ := hs
    split at hs
    · cases hs
    · cases hs
      exact ⟨hr, hl⟩
    · rename_i c rest hring
      cases hs
      obtain ⟨sched, fault, heq, -⟩ := resume_frame { s with ring := rest } c
      rw [heq]
      exact ⟨hr, hl⟩
  | receive =>
    simp only [EventLoop.step] at hs
    split at hs
    · rename_i k rest hreceive
      obtain ⟨-, rfl⟩ := Option.ite_none_right_eq_some.mp hs |>.imp_right Option.some.inj
      refine ⟨?_, ?_⟩
      · rw [processFn_running]
        exact hr
      · rw [(processFn_handled k).2.2.2]
        simp
    · cases hs

/-- The loop goes on as long as no fiber stops the reactor. -/
theorem running_exec (hr : s.running = true) (hl : s.loop ≠ .left) (hin : s.loop ≠ .outside)
    (hstop : .stop ∉ as) (hrun : machine.exec s as = some t) : t.loop ≠ .left := by
  induction as generalizing s with
  | nil =>
    cases hrun
    exact hl
  | cons a as ih =>
    obtain ⟨u, hu, hrun⟩ := Machine.exec_cons.mp hrun
    obtain ⟨hne, hrest⟩ := not_or.mp (mt List.mem_cons.mpr hstop)
    obtain ⟨hru, hlu⟩ := running_step hr hl hin (Ne.symm hne) hu
    exact ih hru hlu (stays_inside hin hu) hrest hrun

/-- What holds before the loop, and in it for as long as it lasts. -/
theorem reachable_before (h : machine.Reachable s) : InLoop s ∧ Attended s ∧ Before s := by
  apply h.invariant (P := fun s => InLoop s ∧ Attended s ∧ Before s)
  · refine ⟨.start, ?_, ?_⟩
    · intro c m hc
      cases hc
    · exact ⟨fun _ => rfl, fun _ c => rfl, fun _ m hm => absurd hm List.not_mem_nil⟩
  · intro s a t hs hstep
    obtain ⟨hin, hatt, hbefore⟩ := hs
    exact ⟨hin.step hstep, hatt.step hin hstep, hbefore.step hstep⟩

theorem served_of_run (hin : InLoop s) (hbefore : Before s) (hrun : EventLoop.step s .run = some u) :
    Served (s.accepted ++ [s.nmsgs]) u := by
  simp only [EventLoop.step, Option.ite_none_right_eq_some, Option.some.injEq] at hrun
  obtain ⟨⟨-, hl, -⟩, rfl⟩ := hrun
  refine ⟨by simp, plain_send (hbefore.plain hl.2), .inl ⟨?_, rfl, .inl rfl, ?_⟩⟩
  · show (s.sched.setAlgo .reactor).active = mainCtx
    rw [Fiber.Scheduler.setAlgo_eq hin.scheduled.ready_nodup .reactor]
    exact hl.1
  · intro m hm
    show m ∈ s.inbox ++ [s.nmsgs]
    rwa [← hbefore.inbox hl.2]

theorem Served.exec (h : Served early s) (hin : InLoop s) (hatt : Attended s)
    (hrun : machine.exec s as = some t) : Served early t ∧ InLoop t ∧ Attended t := by
  induction as generalizing s with
  | nil =>
    cases hrun
    exact ⟨h, hin, hatt⟩
  | cons a as ih =>
    obtain ⟨u, hu, hrun⟩ := Machine.exec_cons.mp hrun
    exact ih (h.step hatt hu) (hin.step hu) (hatt.step hin hu) hrun

/-- Whatever happens in the loop, it is left only after a fiber has stopped the reactor in it, and then the
function that `run` was called with has returned, as has each that was submitted before. -/
theorem application_run (h : machine.Reachable s) (hrun : EventLoop.step s .run = some u)
    (hexec : machine.exec u as = some t) (hleft : t.loop = .left) :
    .stop ∈ as ∧ ∀ m, m ∈ s.accepted ∨ m = s.nmsgs → t.processed m = true ∧ t.finished m = true := by
  obtain ⟨hin, hatt, hbefore⟩ := reachable_before h
  have hserved := served_of_run hin hbefore hrun
  constructor
  · by_contra hstop
    have hstart : u.running = true ∧ u.loop ≠ .left := by
      simp only [EventLoop.step, Option.ite_none_right_eq_some, Option.some.injEq] at hrun
      obtain ⟨-, rfl⟩ := hrun
      exact ⟨rfl, by simp⟩
    exact running_exec hstart.1 hstart.2 hserved.inside hstop hexec hleft
  · obtain ⟨hserved', hin', hatt'⟩ := hserved.exec (hin.step hrun) (hatt.step hin hrun) hexec
    intro m hm
    have hearly : m ∈ s.accepted ++ [s.nmsgs] := by
      rwa [List.mem_append, List.mem_singleton]
    have hplace := hserved'.received (by simp [hleft]) m hearly
    rcases hplace with hbatch | ⟨c, hc⟩ | hdone
    · rw [hleft] at hbatch
      exact absurd hbatch List.not_mem_nil
    · -- every fiber has ended
      obtain ⟨hworker, hlive⟩ := hatt' c m hc
      have hend := hin'.scheduled.registered.terminated_of_contexts (hin'.left hleft).2 hworker hlive.1
      cases hend.symm.trans hlive.2
    · exact hdone

/-- A message that the application's function submits is lost; the function's own is not. -/
theorem application_run_drops : ∃ t : State, t.loop = .left ∧ t.finished 1 = false ∧
    t.processed 0 = true ∧ t.finished 0 = true := by
  obtain ⟨u, hu, t, ht, hleft, hlost⟩ : ∃ u, step machine.start .run = some u ∧ ∃ t, machine.exec u
      [.test, .poll [], .receiveAll, .receive, .yield, .sched (.dispatch 0), .sched (.waitUntil none 1), .test,
        .poll [], .receiveAll, .yield, .sched (.dispatch 1), .test, .poll [], .receiveAll, .yield,
        .sched (.resumed 1), .runAtAsync, .stop, .complete, .sched .setTerminated, .sched (.dispatch 1),
        .test] = some t ∧ t.loop = .left ∧ t.finished 1 = false := ⟨_, rfl, _, rfl, rfl, rfl⟩
  obtain ⟨-, hdone⟩ := application_run .start hu ht hleft
  exact ⟨t, hleft, hlost, hdone 0 (.inr rfl)⟩

end Dumbo.Reactor.EventLoop
