import Dumbo.Reactor.Call
import Mathlib.Data.List.Nodup

/-!
# The life of a cross-reactor message

Every message follows one fixed list of events, `Info.lifecycle`. The invariant relates the prefix
already performed to the place of the message (on the caller's stack, in an inbox, in the closure
of a handler fiber), to its flags and to the wait link of the caller.
-/

namespace Dumbo.Reactor.Call

open Transition

variable {ε ρ : Type} [Inhabited ρ]

omit [Inhabited ρ] in
@[simp] theorem Message.process_cpu (msg : Message ε ρ) (out : Except ε ρ) :
    (msg.process out).cpu = msg.cpu := by
  cases out <;> rfl

omit [Inhabited ρ] in
@[simp] theorem Message.process_oneWay (msg : Message ε ρ) (out : Except ε ρ) :
    (msg.process out).oneWay = msg.oneWay := by
  cases out <;> rfl

omit [Inhabited ρ] in
@[simp] theorem Message.process_isReturn (msg : Message ε ρ) (out : Except ε ρ) :
    (msg.process out).isReturn = true := by
  cases out <;> rfl

omit [Inhabited ρ] in
@[simp] theorem Message.process_fiberContext (msg : Message ε ρ) (out : Except ε ρ) :
    (msg.process out).fiberContext = msg.fiberContext := by
  cases out <;> rfl

/-- Who issued a call, on which reactor, and to which reactor. -/
structure Info where
  caller : FiberId
  origin : Cpu
  target : Cpu
  oneWay : Bool

inductive Stage (ε ρ : Type)
  | made | sent
  | spawned (h : FiberId)
  | entered (h : FiberId)
  | processed (h : FiberId) (out : Except ε ρ)
  | replied (h : FiberId) (out : Except ε ρ)
  | resumed (h : FiberId) (out : Except ε ρ)
  | closed (h : FiberId) (out : Except ε ρ)

namespace Info

variable (c : Info)

def message : Message ε ρ :=
  if c.oneWay then makeOneWayLambdaMessage c.origin else makeFiberLambdaMessage c.origin c.caller

@[simp] theorem message_cpu : (c.message : Message ε ρ).cpu = c.origin := by
  unfold message
  split <;> rfl

@[simp] theorem message_oneWay : (c.message : Message ε ρ).oneWay = c.oneWay := by
  unfold message
  split <;> simp_all [makeOneWayLambdaMessage, makeFiberLambdaMessage]

@[simp] theorem message_isReturn : (c.message : Message ε ρ).isReturn = false := by
  unfold message
  split <;> rfl

@[simp] theorem message_exception : (c.message : Message ε ρ).exception = none := by
  unfold message
  split <;> rfl

theorem message_fiberContext (hw : c.oneWay = false) :
    (c.message : Message ε ρ).fiberContext = some c.caller := by
  simp [message, hw, makeFiberLambdaMessage]

@[simp] theorem message_process_result (out : Except ε ρ) : (c.message.process out).result = out := by
  cases out <;> simp [Message.process, Message.result]

/-- The events of a message up to a stage. -/
def trace : Stage ε ρ → List (Event ε ρ)
  | .made => [.called c.caller c.origin c.target c.oneWay]
  | .sent | .spawned _ => [.called c.caller c.origin c.target c.oneWay, .submitted c.target]
  | .entered h =>
    [.called c.caller c.origin c.target c.oneWay, .submitted c.target, .entered h c.target]
  | .processed h out =>
    [.called c.caller c.origin c.target c.oneWay, .submitted c.target, .entered h c.target,
      .processed h out]
  | .replied h out =>
    [.called c.caller c.origin c.target c.oneWay, .submitted c.target, .entered h c.target,
      .processed h out, .submitted c.origin]
  | .resumed h out =>
    [.called c.caller c.origin c.target c.oneWay, .submitted c.target, .entered h c.target,
      .processed h out, .submitted c.origin, .resumed c.caller]
  | .closed h out =>
    if c.oneWay then
      [.called c.caller c.origin c.target c.oneWay, .submitted c.target, .entered h c.target,
        .processed h out, .deleted]
    else
      [.called c.caller c.origin c.target c.oneWay, .submitted c.target, .entered h c.target,
        .processed h out, .submitted c.origin, .resumed c.caller, .returned c.caller out,
        .deleted]

/-- Everything that may happen to the message of a call, in order: handler fiber `h`, outcome
`out`. -/
def lifecycle (h : FiberId) (out : Except ε ρ) : List (Event ε ρ) :=
  if c.oneWay then
    [.called c.caller c.origin c.target true, .submitted c.target, .entered h c.target,
      .processed h out, .deleted]
  else
    [.called c.caller c.origin c.target false, .submitted c.target, .entered h c.target,
      .processed h out, .submitted c.origin, .resumed c.caller, .returned c.caller out,
      .deleted]

theorem trace_prefix (st : Stage ε ρ)
    (hreply : ∀ h out, st = .replied h out ∨ st = .resumed h out → c.oneWay = false) :
    ∃ h out, c.trace st <+: c.lifecycle h out ∧
      ∀ g out', st = .closed g out' → h = g ∧ c.trace st = c.lifecycle h out := by
  cases st with
  | made => exact ⟨0, .ok default, by cases hw : c.oneWay <;> simp [trace, lifecycle, hw], by simp⟩
  | sent => exact ⟨0, .ok default, by cases hw : c.oneWay <;> simp [trace, lifecycle, hw], by simp⟩
  | spawned h => exact ⟨h, .ok default, by cases hw : c.oneWay <;> simp [trace, lifecycle, hw], by simp⟩
  | entered h => exact ⟨h, .ok default, by cases hw : c.oneWay <;> simp [trace, lifecycle, hw], by simp⟩
  | processed h out => exact ⟨h, out, by cases hw : c.oneWay <;> simp [trace, lifecycle, hw], by simp⟩
  | replied h out => exact ⟨h, out, by simp [trace, lifecycle, hreply h out], by simp⟩
  | resumed h out => exact ⟨h, out, by simp [trace, lifecycle, hreply h out], by simp⟩
  | closed h out =>
    have heq : c.trace (.closed h out) = c.lifecycle h out := by
      cases hw : c.oneWay <;> simp [trace, lifecycle, hw]
    exact ⟨h, out, heq ▸ List.prefix_rfl, fun g out' hg => by simp_all⟩

def heapAt : Stage ε ρ → Option (Message ε ρ)
  | .made | .sent | .spawned _ | .entered _ => some c.message
  | .processed _ out | .replied _ out | .resumed _ out => some (c.message.process out)
  | .closed _ _ => none

def inboxAt : Stage ε ρ → Option Cpu
  | .sent => some c.target
  | .replied _ _ => some c.origin
  | _ => none

end Info

namespace Stage

def handlerAt : Stage ε ρ → Option (FiberId × HandlerPc)
  | .spawned h => some (h, .start)
  | .entered h => some (h, .inFn)
  | .processed h _ => some (h, .processed)
  | _ => none

/-- The positions of the caller that a stage allows. -/
def callAt (c : Info) : Stage ε ρ → CallPc → Bool → Prop
  | .made, pc, _ => pc = .made c.target c.oneWay
  | .closed _ _, _, _ => False
  | .resumed _ _, pc, linked => c.oneWay = false ∧ pc = .waiting ∧ linked = false
  | _, pc, linked => c.oneWay = false ∧ (pc = .sent ∨ pc = .waiting ∧ linked = true)

/-- The handler fiber has left the closure of `process_fn`. -/
def doneBy : Stage ε ρ → FiberId → Prop
  | .replied h _, g | .resumed h _, g | .closed h _, g => h = g
  | _, _ => False

/-- The caller is inside the call. -/
def inCall (c : Info) : Stage ε ρ → Prop
  | .made => True
  | .closed _ _ => False
  | _ => c.oneWay = false

end Stage

/-- The place of message `m` at stage `st` of the call `c`. -/
structure Placed (s : State ε ρ) (m : MsgId) (c : Info) (st : Stage ε ρ) : Prop where
  trace : s.trace m = c.trace st
  heap : s.heap m = c.heapAt st
  inbox : ∀ r, m ∈ s.inbox r ↔ c.inboxAt st = some r
  handler : ∀ g pc, st.handlerAt = some (g, pc) →
    g < s.nfibers ∧ (s.fiber g).handler = some (m, pc) ∧ (s.fiber g).cpu = c.target
  handlerOnly : ∀ g pc, (s.fiber g).handler = some (m, pc) →
    pc = .finished ∧ st.doneBy g ∨ st.handlerAt = some (g, pc)
  call : st.inCall c → ∃ pc, (s.fiber c.caller).call = some (m, pc)
  callOnly : ∀ g pc, (s.fiber g).call = some (m, pc) →
    g = c.caller ∧ st.callAt c pc (s.fiber g).linked
  caller : c.caller < s.nfibers ∧ (s.fiber c.caller).cpu = c.origin
  reply : ∀ h out, st = .replied h out ∨ st = .resumed h out → c.oneWay = false

structure FiberOk (s : State ε ρ) (f : FiberId) : Prop where
  fresh : s.nfibers ≤ f → (s.fiber f).call = none ∧ (s.fiber f).handler = none ∧
    (s.fiber f).status = .terminated ∧ (s.fiber f).linked = false
  active : (s.fiber f).status = .active ↔ s.hasControl f
  linked : (s.fiber f).linked = true ↔ (s.fiber f).status = .suspended
  waiting : (s.fiber f).linked = true → ∃ m, (s.fiber f).call = some (m, .waiting)
  issuing : ∀ m pc, (s.fiber f).call = some (m, pc) → pc ≠ .waiting → s.hasControl f
  call : ∀ m pc, (s.fiber f).call = some (m, pc) → m < s.nmsgs
  handler : ∀ m pc, (s.fiber f).handler = some (m, pc) → m < s.nmsgs

structure Inv (s : State ε ρ) : Prop where
  fault : s.fault = none
  active : ∀ r f, s.active r = some f → (s.fiber f).cpu = r
  fiber : ∀ f, FiberOk s f
  inbox : ∀ r, (s.inbox r).Nodup ∧ ∀ m ∈ s.inbox r, m < s.nmsgs
  message : ∀ m < s.nmsgs, ∃ c st, Placed s m c st
  unused : ∀ m, s.nmsgs ≤ m → s.trace m = []

theorem inv_initial : Inv (initial : State ε ρ) where
  fault := rfl
  active := by simp [initial]
  fiber f := by constructor <;> simp [initial, State.hasControl]
  inbox := by simp [initial]
  message := by simp [initial]
  unused := by simp [initial]

/-- Nothing that `Placed` says about message `m` differs between two states. -/
structure SameFor (s t : State ε ρ) (m : MsgId) : Prop where
  trace : t.trace m = s.trace m
  heap : t.heap m = s.heap m
  inbox : ∀ r, m ∈ t.inbox r ↔ m ∈ s.inbox r
  nfibers : s.nfibers ≤ t.nfibers
  cpu : ∀ g < s.nfibers, (t.fiber g).cpu = (s.fiber g).cpu
  handler : ∀ g pc, (t.fiber g).handler = some (m, pc) ↔ (s.fiber g).handler = some (m, pc)
  call : ∀ g pc, (t.fiber g).call = some (m, pc) ↔ (s.fiber g).call = some (m, pc)
  linked : ∀ g pc, (s.fiber g).call = some (m, pc) → (t.fiber g).linked = (s.fiber g).linked

theorem Placed.frame {s t : State ε ρ} {m : MsgId} {c : Info} {st : Stage ε ρ}
    (hp : Placed s m c st) (h : SameFor s t m) : Placed t m c st where
  trace := h.trace.trans hp.trace
  heap := h.heap.trans hp.heap
  inbox r := (h.inbox r).trans (hp.inbox r)
  handler g pc hg := by
    obtain ⟨hlt, hh, hc⟩ := hp.handler g pc hg
    exact ⟨Nat.lt_of_lt_of_le hlt h.nfibers, (h.handler g pc).mpr hh, (h.cpu g hlt).trans hc⟩
  handlerOnly g pc hg := hp.handlerOnly g pc ((h.handler g pc).mp hg)
  call ho := by
    obtain ⟨pc, hpc⟩ := hp.call ho
    exact ⟨pc, (h.call _ pc).mpr hpc⟩
  callOnly g pc hg := by
    have hs := (h.call g pc).mp hg
    rw [h.linked g pc hs]
    exact hp.callOnly g pc hs
  caller := ⟨Nat.lt_of_lt_of_le hp.caller.1 h.nfibers, (h.cpu _ hp.caller.1).trans hp.caller.2⟩
  reply := hp.reply

section Stages

variable {s : State ε ρ} {m : MsgId} {c : Info} {st : Stage ε ρ}

theorem Placed.of_made (hp : Placed s m c st) {f : FiberId} {target : Cpu} {w : Bool}
    (h : (s.fiber f).call = some (m, .made target w)) :
    f = c.caller ∧ st = .made ∧ target = c.target ∧ w = c.oneWay := by
  obtain ⟨hf, hc⟩ := hp.callOnly f _ h
  cases st <;> simp_all [Stage.callAt]

theorem Placed.of_sent (hp : Placed s m c st) {f : FiberId}
    (h : (s.fiber f).call = some (m, .sent)) :
    f = c.caller ∧ c.oneWay = false ∧ st.callAt c .waiting true := by
  obtain ⟨hf, hc⟩ := hp.callOnly f _ h
  cases st <;> simp_all [Stage.callAt]

/-- A caller that left the wait queue finds its message back with an outcome. -/
theorem Placed.of_unlinked (hp : Placed s m c st) {f : FiberId}
    (h : (s.fiber f).call = some (m, .waiting)) (hl : (s.fiber f).linked = false) :
    f = c.caller ∧ c.oneWay = false ∧ ∃ g out, st = .resumed g out := by
  obtain ⟨hf, hc⟩ := hp.callOnly f _ h
  cases st <;> simp_all [Stage.callAt]

theorem Placed.of_handler (hp : Placed s m c st) {g : FiberId} {pc : HandlerPc}
    (h : (s.fiber g).handler = some (m, pc)) (hpc : pc ≠ .finished) :
    st.handlerAt = some (g, pc) ∧ (s.fiber g).cpu = c.target := by
  have hat := (hp.handlerOnly g pc h).resolve_left fun hd => hpc hd.1
  exact ⟨hat, (hp.handler g pc hat).2.2⟩

/-- A message in an inbox is either on its way to the target or back at its origin. -/
theorem Placed.of_inbox (hp : Placed s m c st) {r : Cpu} (h : m ∈ s.inbox r) :
    st = .sent ∧ r = c.target ∨ ∃ g out, st = .replied g out ∧ r = c.origin := by
  have hat := (hp.inbox r).mp h
  cases st <;> simp_all [Info.inboxAt]

end Stages

/-! ### What an action leaves alone -/

section Frame

omit [Inhabited ρ]

variable {s t : State ε ρ} {f : FiberId} {m k : MsgId} {r : Cpu}

theorem SameFor.of_fiber {x : Fiber} (htrace : t.trace k = s.trace k) (hheap : t.heap k = s.heap k)
    (hinbox : ∀ r, k ∈ t.inbox r ↔ k ∈ s.inbox r) (hfiber : t.fiber = Function.update s.fiber f x)
    (hnfibers : t.nfibers = s.nfibers) (hcpu : x.cpu = (s.fiber f).cpu)
    (hhandler : ∀ pc, x.handler = some (k, pc) ↔ (s.fiber f).handler = some (k, pc))
    (hcall : ∀ pc, x.call = some (k, pc) ↔ (s.fiber f).call = some (k, pc))
    (hlinked : ∀ pc, (s.fiber f).call = some (k, pc) → x.linked = (s.fiber f).linked) : SameFor s t k := by
  refine ⟨htrace, hheap, hinbox, Nat.le_of_eq hnfibers.symm, fun g _ => ?_, fun g pc => ?_, fun g pc => ?_,
    fun g pc hg => ?_⟩
  all_goals
    rw [hfiber]
    by_cases hgf : g = f
    · subst hgf
      simp only [Function.update_self]
      first | exact hcpu | exact hhandler pc | exact hcall pc | exact hlinked pc hg
    · simp only [Function.update_of_ne hgf]

theorem SameFor.of_spawn {handler : Option (MsgId × HandlerPc)} (htrace : t.trace k = s.trace k)
    (hheap : t.heap k = s.heap k) (hinbox : ∀ r, k ∈ t.inbox r ↔ k ∈ s.inbox r)
    (hfiber : t.fiber = Function.update s.fiber s.nfibers ⟨r, .ready, false, handler, none⟩)
    (hnfibers : t.nfibers = s.nfibers + 1)
    (hfresh : (s.fiber s.nfibers).call = none ∧ (s.fiber s.nfibers).handler = none)
    (hk : ∀ pc, handler ≠ some (k, pc)) : SameFor s t k := by
  refine ⟨htrace, hheap, hinbox, Nat.le_trans (Nat.le_succ _) (Nat.le_of_eq hnfibers.symm),
    fun g hg => ?_, fun g pc => ?_, fun g pc => ?_, fun g pc hg => ?_⟩
  · rw [hfiber, Function.update_of_ne (Nat.ne_of_lt hg)]
  · rw [hfiber]
    by_cases hgf : g = s.nfibers
    · subst hgf
      rw [Function.update_self, hfresh.2]
      exact ⟨fun h => absurd h (hk pc), fun h => absurd h (by simp)⟩
    · rw [Function.update_of_ne hgf]
  · rw [hfiber]
    by_cases hgf : g = s.nfibers
    · subst hgf
      rw [Function.update_self, hfresh.1]
    · rw [Function.update_of_ne hgf]
  · have hgf : g ≠ s.nfibers := by
      rintro rfl
      rw [hfresh.1] at hg
      exact absurd hg (by simp)
    rw [hfiber, Function.update_of_ne hgf]

theorem mem_submitTo (hk : k ≠ m) (cpu r : Cpu) : k ∈ (s.submitTo cpu m).inbox r ↔ k ∈ s.inbox r := by
  show k ∈ Function.update s.inbox cpu _ r ↔ _
  rw [Function.update_apply]
  split_ifs with hr
  · rw [hr, List.mem_append, List.mem_singleton, or_iff_left hk]
  · exact Iff.rfl

theorem mem_submitTo_self (hnot : ∀ r, m ∉ s.inbox r) (cpu r : Cpu) :
    m ∈ (s.submitTo cpu m).inbox r ↔ some cpu = some r := by
  show m ∈ Function.update s.inbox cpu (s.inbox cpu ++ [m]) r ↔ _
  rw [Function.update_apply, Option.some.injEq]
  split_ifs with hr
  · simp [hr]
  · simp [hnot r, Ne.symm hr]

theorem not_mem_take {rest : List MsgId} (hin : s.inbox r = m :: rest) (hnodup : (s.inbox r).Nodup)
    (honly : ∀ q, m ∈ s.inbox q → q = r) (q : Cpu) : m ∉ Function.update s.inbox r rest q := by
  rw [Function.update_apply]
  split_ifs with hq
  · rw [hin, List.nodup_cons] at hnodup
    exact hnodup.1
  · exact fun hm => hq (honly q hm)

@[simp] theorem log_trace (s : State ε ρ) (m : MsgId) (es : List (Event ε ρ)) :
    (s.log m es).trace m = s.trace m ++ es :=
  Function.update_self _ _ _

theorem mem_take (hk : k ≠ m) {rest : List MsgId} (hin : s.inbox r = m :: rest) (q : Cpu) :
    k ∈ Function.update s.inbox r rest q ↔ k ∈ s.inbox q := by
  rw [Function.update_apply]
  split_ifs with hq
  · rw [hq, hin, List.mem_cons, or_iff_right hk]
  · exact Iff.rfl

theorem FiberOk.not_linked (h : FiberOk s f) (hc : s.hasControl f) : (s.fiber f).linked = false := by
  by_contra hl
  have hs := h.linked.mp (by simpa using hl)
  rw [h.active.mpr hc] at hs
  exact absurd hs (by decide)

theorem FiberOk.lt_of_status (h : FiberOk s f) (hs : (s.fiber f).status ≠ .terminated) :
    f < s.nfibers := by
  by_contra hge
  exact hs (h.fresh (Nat.le_of_not_lt hge)).2.2.1

theorem FiberOk.lt_of_control (h : FiberOk s f) (hc : s.hasControl f) : f < s.nfibers := by
  refine h.lt_of_status ?_
  rw [h.active.mpr hc]
  decide

end Frame

/-! ### The fibers -/

theorem Fiber.call_of_inUserCode {x : Fiber} (h : x.inUserCode = true) : x.call = none := by
  rw [Fiber.inUserCode] at h
  split at h
  · assumption
  · assumption
  · exact absurd h Bool.false_ne_true

theorem Fiber.call_of_atEnd {x : Fiber} (h : x.atEnd = true) : x.call = none := by
  rw [Fiber.atEnd] at h
  split at h
  · assumption
  · assumption
  · exact absurd h Bool.false_ne_true

section Fibers

variable {s t : State ε ρ} {f : FiberId} {m : MsgId}

theorem Inv.fibers (hi : Inv s) (hfiber : ∀ g, g ≠ f → t.fiber g = s.fiber g)
    (hcontrol : ∀ g, g ≠ f → (t.hasControl g ↔ s.hasControl g)) (hnfibers : s.nfibers ≤ t.nfibers)
    (hnmsgs : s.nmsgs ≤ t.nmsgs) (hf : FiberOk t f) (g : FiberId) : FiberOk t g := by
  by_cases hgf : g = f
  · exact hgf ▸ hf
  · have hg := hi.fiber g
    have heq := hfiber g hgf
    have hc := hcontrol g hgf
    constructor
    · rw [heq]
      exact fun hle => hg.fresh (Nat.le_trans hnfibers hle)
    · rw [hc, heq]
      exact hg.active
    · rw [heq]
      exact hg.linked
    · rw [heq]
      exact hg.waiting
    · rw [hc, heq]
      exact hg.issuing
    · rw [heq]
      exact fun k pc hk => Nat.lt_of_lt_of_le (hg.call k pc hk) hnmsgs
    · rw [heq]
      exact fun k pc hk => Nat.lt_of_lt_of_le (hg.handler k pc hk) hnmsgs

theorem Inv.active_of (hi : Inv s) (hactive : t.active = s.active)
    (hcpu : ∀ g < s.nfibers, (t.fiber g).cpu = (s.fiber g).cpu) (r : Cpu) (g : FiberId)
    (hg : t.active r = some g) : (t.fiber g).cpu = r := by
  rw [hactive] at hg
  have hr := hi.active r g hg
  rw [hcpu g ((hi.fiber g).lt_of_control (by rw [State.hasControl, hr, hg])), hr]

omit [Inhabited ρ] in
theorem FiberOk.congr (h : FiberOk s f) (hfiber : t.fiber = s.fiber) (hnfibers : t.nfibers = s.nfibers)
    (hactive : t.active = s.active) (hnmsgs : t.nmsgs = s.nmsgs) : FiberOk t f := by
  constructor
  · rw [hnfibers, hfiber]
    exact h.fresh
  · rw [State.hasControl, hfiber, hactive]
    exact h.active
  · rw [hfiber]
    exact h.linked
  · rw [hfiber]
    exact h.waiting
  · rw [State.hasControl, hfiber, hactive]
    exact h.issuing
  · rw [hfiber, hnmsgs]
    exact h.call
  · rw [hfiber, hnmsgs]
    exact h.handler

theorem Inv.fibers_control (hi : Inv s) (hc : s.hasControl f) {x : Fiber}
    (hfiber : t.fiber = Function.update s.fiber f x) (hcpu : x.cpu = (s.fiber f).cpu)
    (hstatus : x.status = (s.fiber f).status) (hlinked : x.linked = (s.fiber f).linked)
    (hactive : t.active = s.active) (hnfibers : t.nfibers = s.nfibers) (hnmsgs : s.nmsgs ≤ t.nmsgs)
    (hcall : ∀ k pc, x.call = some (k, pc) → k < t.nmsgs)
    (hhandler : ∀ k pc, x.handler = some (k, pc) → k < t.nmsgs) (g : FiberId) : FiberOk t g := by
  have hf := hi.fiber f
  have hx : t.fiber f = x := by rw [hfiber, Function.update_self]
  have hfalse : x.linked = false := hlinked.trans (hf.not_linked hc)
  have hcontrol : t.hasControl f := by
    rw [State.hasControl, hx, hcpu, hactive]
    exact hc
  refine hi.fibers (f := f) (fun g hgf => ?_) (fun g hgf => ?_) (Nat.le_of_eq hnfibers.symm) hnmsgs ?_ g
  · rw [hfiber, Function.update_of_ne hgf]
  · rw [State.hasControl, hfiber, Function.update_of_ne hgf, hactive]
  · constructor
    · rw [hnfibers]
      exact fun hle => absurd (hf.lt_of_control hc) (Nat.not_lt.mpr hle)
    · rw [hx, hstatus]
      exact ⟨fun _ => hcontrol, fun _ => hf.active.mpr hc⟩
    · rw [hx, hlinked, hstatus]
      exact hf.linked
    · rw [hx, hfalse]
      exact fun h => absurd h Bool.false_ne_true
    · exact fun _ _ _ _ => hcontrol
    · rw [hx]
      exact hcall
    · rw [hx]
      exact hhandler

omit [Inhabited ρ] in
theorem control_switch {x : Fiber} {a : Option FiberId} (hcpu : x.cpu = (s.fiber f).cpu)
    (hold : ∀ g, s.active (s.fiber f).cpu = some g → g = f) (hnew : ∀ g, a = some g → g = f)
    (g : FiberId) (hgf : g ≠ f) :
    ((s.setFiber f x).setActive x.cpu a).hasControl g ↔ s.hasControl g := by
  show Function.update s.active x.cpu a (Function.update s.fiber f x g).cpu = some g ↔ _
  rw [Function.update_of_ne hgf, Function.update_apply, hcpu]
  split_ifs with hr
  · rw [State.hasControl, hr]
    exact ⟨fun h => absurd (hnew g h) hgf, fun h => absurd (hold g h) hgf⟩
  · exact Iff.rfl

theorem Inv.active_switch (hi : Inv s) {x : Fiber} {a : Option FiberId}
    (hcpu : x.cpu = (s.fiber f).cpu) (hnew : ∀ g, a = some g → g = f) (r : Cpu) (g : FiberId)
    (hg : ((s.setFiber f x).setActive x.cpu a).active r = some g) :
    (((s.setFiber f x).setActive x.cpu a).fiber g).cpu = r := by
  change Function.update s.active x.cpu a r = some g at hg
  show (Function.update s.fiber f x g).cpu = r
  by_cases hr : r = x.cpu
  · rw [hr, Function.update_self] at hg
    rw [hnew g hg, Function.update_self, hr]
  · rw [Function.update_of_ne hr] at hg
    have hgr := hi.active r g hg
    have hgf : g ≠ f := by
      rintro rfl
      exact hr (hgr.symm.trans hcpu.symm)
    rw [Function.update_of_ne hgf]
    exact hgr

theorem Inv.fibers_spawn (hi : Inv s) {r : Cpu} (handler : Option (MsgId × HandlerPc))
    (hhandler : ∀ k pc, handler = some (k, pc) → k < s.nmsgs) (g : FiberId) :
    FiberOk (s.spawn r handler) g := by
  have hx : (s.spawn r handler).fiber s.nfibers = ⟨r, .ready, false, handler, none⟩ :=
    Function.update_self _ _ _
  have hidle : ¬ s.active r = some s.nfibers := by
    intro hr
    have hc : s.hasControl s.nfibers := by rw [State.hasControl, hi.active r _ hr, hr]
    exact Nat.lt_irrefl _ ((hi.fiber s.nfibers).lt_of_control hc)
  refine hi.fibers (t := s.spawn r handler) (f := s.nfibers) (fun g hgf => Function.update_of_ne hgf _ _) (fun g hgf => ?_)
    (Nat.le_succ _) (Nat.le_refl _) ?_ g
  · show s.active (Function.update s.fiber s.nfibers _ g).cpu = some g ↔ _
    rw [Function.update_of_ne hgf]
  · constructor
    · exact fun hle => absurd hle (Nat.not_succ_le_self _)
    · rw [State.hasControl, hx]
      exact ⟨fun h => absurd h (by simp), fun h => absurd h hidle⟩
    · rw [hx]
      simp
    · rw [hx]
      simp
    · rw [hx]
      simp
    · rw [hx]
      simp
    · rw [hx]
      exact hhandler

end Fibers

/-! ### The messages -/

section Messages

variable {s t : State ε ρ} {m : MsgId} {c : Info} {st st' : Stage ε ρ} {f : FiberId}

/-- No message is concerned. -/
theorem Inv.quiet (hi : Inv s) (hfault : t.fault = none)
    (hactive : ∀ r f, t.active r = some f → (t.fiber f).cpu = r) (hfiber : ∀ f, FiberOk t f)
    (hinbox : ∀ r, (t.inbox r).Nodup ∧ ∀ m ∈ t.inbox r, m < t.nmsgs) (hnmsgs : t.nmsgs = s.nmsgs)
    (hsame : ∀ k, SameFor s t k) : Inv t where
  fault := hfault
  active := hactive
  fiber := hfiber
  inbox := hinbox
  unused k hk := by
    rw [(hsame k).trace]
    exact hi.unused k (hnmsgs ▸ hk)
  message k hk := by
    obtain ⟨c, st, hp⟩ := hi.message k (hnmsgs ▸ hk)
    exact ⟨c, st, hp.frame (hsame k)⟩

theorem Inv.advance (hi : Inv s) (m : MsgId) (c : Info) (st : Stage ε ρ) (hfault : t.fault = none)
    (hactive : ∀ r f, t.active r = some f → (t.fiber f).cpu = r) (hfiber : ∀ f, FiberOk t f)
    (hinbox : ∀ r, (t.inbox r).Nodup ∧ ∀ m ∈ t.inbox r, m < t.nmsgs)
    (hnmsgs : ∀ k, k < t.nmsgs ↔ k < s.nmsgs ∨ k = m) (hsame : ∀ k, k ≠ m → SameFor s t k)
    (hp : Placed t m c st) : Inv t where
  fault := hfault
  active := hactive
  fiber := hfiber
  inbox := hinbox
  unused k hk := by
    have hnot := mt (hnmsgs k).mpr (Nat.not_lt.mpr hk)
    rw [not_or] at hnot
    rw [(hsame k hnot.2).trace]
    exact hi.unused k (Nat.le_of_not_lt hnot.1)
  message k hk := by
    by_cases hkm : k = m
    · exact ⟨c, st, hkm ▸ hp⟩
    · obtain ⟨c, st, hp⟩ := hi.message k (((hnmsgs k).mp hk).resolve_right hkm)
      exact ⟨c, st, hp.frame (hsame k hkm)⟩

omit [Inhabited ρ] in
theorem same_nmsgs (hm : m < s.nmsgs) (k : MsgId) : k < s.nmsgs ↔ k < s.nmsgs ∨ k = m :=
  ⟨.inl, fun h => h.elim id fun hk => hk ▸ hm⟩

theorem Inv.inbox_submitTo (hi : Inv s) (hm : m < s.nmsgs) {cpu : Cpu} (hnot : m ∉ s.inbox cpu) (r : Cpu) :
    ((s.submitTo cpu m).inbox r).Nodup ∧ ∀ k ∈ (s.submitTo cpu m).inbox r, k < s.nmsgs := by
  show (Function.update s.inbox cpu (s.inbox cpu ++ [m]) r).Nodup ∧
    ∀ k ∈ Function.update s.inbox cpu (s.inbox cpu ++ [m]) r, k < s.nmsgs
  rw [Function.update_apply]
  split_ifs with hr
  · refine ⟨(hi.inbox cpu).1.append (List.nodup_singleton m) (by simpa using hnot), fun k hk => ?_⟩
    rcases List.mem_append.mp hk with hk | hk
    · exact (hi.inbox cpu).2 k hk
    · rw [List.mem_singleton.mp hk]
      exact hm
  · exact hi.inbox r

theorem Inv.inbox_take (hi : Inv s) {r : Cpu} {rest : List MsgId} (hin : s.inbox r = m :: rest) (q : Cpu) :
    (Function.update s.inbox r rest q).Nodup ∧ ∀ k ∈ Function.update s.inbox r rest q, k < s.nmsgs := by
  rw [Function.update_apply]
  split_ifs with hq
  · obtain ⟨hnodup, hlt⟩ := hi.inbox r
    rw [hin] at hnodup hlt
    exact ⟨(List.nodup_cons.mp hnodup).2, fun k hk => hlt k (List.mem_cons_of_mem _ hk)⟩
  · exact hi.inbox q

theorem Inv.act (hi : Inv s) (hc : s.hasControl f) {x : Fiber} (hfault : t.fault = none)
    (hfiber : t.fiber = Function.update s.fiber f x) (hcpu : x.cpu = (s.fiber f).cpu)
    (hstatus : x.status = (s.fiber f).status) (hlinked : x.linked = (s.fiber f).linked)
    (hactive : t.active = s.active) (hnfibers : t.nfibers = s.nfibers) (hnmsgs : t.nmsgs = s.nmsgs)
    (hm : m < s.nmsgs) (hinbox : ∀ r, (t.inbox r).Nodup ∧ ∀ m ∈ t.inbox r, m < s.nmsgs)
    (htrace : ∀ k, k ≠ m → t.trace k = s.trace k) (hheap : ∀ k, k ≠ m → t.heap k = s.heap k)
    (hmem : ∀ k, k ≠ m → ∀ r, k ∈ t.inbox r ↔ k ∈ s.inbox r)
    (hhandler : ∀ k, k ≠ m → ∀ pc, x.handler = some (k, pc) ↔ (s.fiber f).handler = some (k, pc))
    (hcall : ∀ k, k ≠ m → ∀ pc, x.call = some (k, pc) ↔ (s.fiber f).call = some (k, pc))
    (hp : Placed t m c st) : Inv t := by
  have hf := hi.fiber f
  have hlt : ∀ k, t.nmsgs = s.nmsgs ∧ (k = m → k < t.nmsgs) :=
    fun k => ⟨hnmsgs, fun hk => by rw [hk, hnmsgs]; exact hm⟩
  refine hi.advance m _ _ hfault (hi.active_of hactive fun g _ => ?_)
    (hi.fibers_control hc hfiber hcpu hstatus hlinked hactive hnfibers (Nat.le_of_eq hnmsgs.symm)
      (fun k pc hk => ?_) fun k pc hk => ?_)
    (hnmsgs ▸ hinbox) (fun k => hnmsgs ▸ same_nmsgs hm k)
    (fun k hk => .of_fiber (htrace k hk) (hheap k hk) (hmem k hk) hfiber hnfibers hcpu (hhandler k hk)
      (hcall k hk) fun _ _ => hlinked) hp
  · rw [hfiber, Function.update_apply]
    split_ifs with hgf
    · rw [hcpu, hgf]
    · rfl
  · by_cases hkm : k = m
    · exact (hlt k).2 hkm
    · exact hnmsgs ▸ hf.call k pc ((hcall k hkm pc).mp hk)
  · by_cases hkm : k = m
    · exact (hlt k).2 hkm
    · exact hnmsgs ▸ hf.handler k pc ((hhandler k hkm pc).mp hk)

omit [Inhabited ρ] in
theorem Stage.not_doneBy {p : FiberId × HandlerPc} (h : st.handlerAt = some p) (g : FiberId) :
    ¬ st.doneBy g := by
  cases st with
  | spawned | entered | processed | made | sent => exact id
  | replied | resumed | closed => exact absurd h (by simp [Stage.handlerAt])

theorem Placed.handle (hp : Placed s m c st) (st' : Stage ε ρ) {pc : HandlerPc} (pc' : HandlerPc)
    (hat : st.handlerAt = some (f, pc))
    (hfiber : t.fiber = Function.update s.fiber f { s.fiber f with handler := some (m, pc') })
    (hnfibers : t.nfibers = s.nfibers) (htrace : t.trace m = c.trace st') (hheap : t.heap m = c.heapAt st')
    (hinbox : ∀ r, m ∈ t.inbox r ↔ c.inboxAt st' = some r)
    (hnext : st'.handlerAt = some (f, pc') ∨ st'.handlerAt = none ∧ pc' = .finished ∧ st'.doneBy f)
    (hinCall : st'.inCall c → st.inCall c)
    (hcallAt : ∀ pc linked, st.callAt c pc linked → st'.callAt c pc linked)
    (hreply : ∀ h out, st' = .replied h out ∨ st' = .resumed h out → c.oneWay = false) :
    Placed t m c st' := by
  have hf : t.fiber f = { s.fiber f with handler := some (m, pc') } := by
    rw [hfiber, Function.update_self]
  -- only the handler of the fiber changes
  have hsame : ∀ g, (t.fiber g).cpu = (s.fiber g).cpu ∧ (t.fiber g).call = (s.fiber g).call ∧
      (t.fiber g).linked = (s.fiber g).linked := by
    intro g
    by_cases hgf : g = f
    · rw [hgf, hf]
      exact ⟨rfl, rfl, rfl⟩
    · rw [hfiber, Function.update_of_ne hgf]
      exact ⟨rfl, rfl, rfl⟩
  obtain ⟨hlt, _, hcpu⟩ := hp.handler f pc hat
  refine ⟨htrace, hheap, hinbox, fun g pc1 hg => ?_, fun g pc1 hg => ?_, fun hin => ?_, fun g pc1 hg => ?_,
    ⟨hnfibers ▸ hp.caller.1, (hsame c.caller).1.trans hp.caller.2⟩, hreply⟩
  · rcases hnext with hnext | ⟨hnext, _⟩
    · rw [hnext, Option.some.injEq, Prod.mk.injEq] at hg
      obtain ⟨rfl, rfl⟩ := hg
      exact ⟨hnfibers ▸ hlt, by rw [hf], (hsame f).1.trans hcpu⟩
    · rw [hnext] at hg
      exact absurd hg (by simp)
  · by_cases hgf : g = f
    · rw [hgf, hf, Option.some.injEq, Prod.mk.injEq] at hg
      obtain ⟨-, rfl⟩ := hg
      rcases hnext with hnext | ⟨_, hpc, hdone⟩
      · exact .inr (hgf ▸ hnext)
      · exact .inl ⟨hpc, hgf ▸ hdone⟩
    · rw [hfiber, Function.update_of_ne hgf] at hg
      rcases hp.handlerOnly g pc1 hg with ⟨_, hdone⟩ | hat'
      · exact absurd hdone (Stage.not_doneBy hat g)
      · rw [hat, Option.some.injEq, Prod.mk.injEq] at hat'
        exact absurd hat'.1.symm hgf
  · rw [(hsame c.caller).2.1]
    exact hp.call (hinCall hin)
  · rw [(hsame g).2.1] at hg
    rw [(hsame g).2.2]
    obtain ⟨hgc, hcall⟩ := hp.callOnly g pc1 hg
    exact ⟨hgc, hcallAt pc1 _ hcall⟩

theorem Placed.atCaller (hp : Placed s m c st) (st' : Stage ε ρ) {x : Fiber}
    (hfiber : t.fiber = Function.update s.fiber c.caller x) (hnfibers : t.nfibers = s.nfibers)
    (hcpu : x.cpu = (s.fiber c.caller).cpu) (hhandler : x.handler = (s.fiber c.caller).handler)
    (htrace : t.trace m = c.trace st') (hheap : t.heap m = c.heapAt st')
    (hinbox : ∀ r, m ∈ t.inbox r ↔ c.inboxAt st' = some r)
    (hhandlerAt : st'.handlerAt = st.handlerAt) (hdone : ∀ g, st.doneBy g → st'.doneBy g)
    (hinCall : st'.inCall c → ∃ pc, x.call = some (m, pc))
    (hcallAt : ∀ pc, x.call = some (m, pc) → st'.callAt c pc x.linked)
    (hreply : ∀ h out, st' = .replied h out ∨ st' = .resumed h out → c.oneWay = false) :
    Placed t m c st' := by
  have hx : t.fiber c.caller = x := by rw [hfiber, Function.update_self]
  have hsame : ∀ g, (t.fiber g).cpu = (s.fiber g).cpu ∧ (t.fiber g).handler = (s.fiber g).handler := by
    intro g
    by_cases hgf : g = c.caller
    · rw [hgf, hx]
      exact ⟨hcpu, hhandler⟩
    · rw [hfiber, Function.update_of_ne hgf]
      exact ⟨rfl, rfl⟩
  refine ⟨htrace, hheap, hinbox, fun g pc hg => ?_, fun g pc hg => ?_, fun hin => ?_, fun g pc hg => ?_,
    ⟨hnfibers ▸ hp.caller.1, (hsame c.caller).1.trans hp.caller.2⟩, hreply⟩
  · rw [hhandlerAt] at hg
    rw [hnfibers, (hsame g).1, (hsame g).2]
    exact hp.handler g pc hg
  · rw [(hsame g).2] at hg
    rw [hhandlerAt]
    exact (hp.handlerOnly g pc hg).imp_left fun ⟨hpc, hd⟩ => ⟨hpc, hdone g hd⟩
  · rw [hx]
    exact hinCall hin
  · by_cases hgf : g = c.caller
    · rw [hgf, hx] at hg ⊢
      exact ⟨rfl, hcallAt pc hg⟩
    · rw [hfiber, Function.update_of_ne hgf] at hg
      exact absurd (hp.callOnly g pc hg).1 hgf

end Messages

end Dumbo.Reactor.Call
