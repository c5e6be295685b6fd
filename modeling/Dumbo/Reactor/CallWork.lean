import Dumbo.Lib.Work
import Dumbo.Reactor.CallProtocol

/-!
# The work of a call

Each step of the protocol, as against those of the functions that the fibers run, lowers the work that the
messages, the inboxes and the fibers have before them.
-/

namespace Dumbo.Reactor.Call

open Transition

variable {ε ρ : Type}

/-- The steps of the protocol: every step but those by which the functions that the fibers run go on, and a
`receive_all` that finds nothing. -/
def handles (s : State ε ρ) : Action ε ρ → Bool
  | .spawn _ | .yield _ | .runAt _ _ | .runAtAsync _ _ => false
  | .receiveAll r => s.inbox r ≠ []
  | _ => true

/-- The most steps of the protocol that a step of a function brings about. -/
def cost : Action ε ρ → Nat
  | .spawn _ => 2
  | .yield _ => 1
  | .runAt _ _ | .runAtAsync _ _ => 35
  | _ => 0

def Status.work : Status → Nat
  | .ready => 2
  | .active => 1
  | .suspended | .terminated => 0

/-- The events that the messages have before them. -/
def messageWork (s : State ε ρ) : Nat := ∑ m ∈ Finset.range s.nmsgs, (8 - (s.trace m).length)

def inboxWork (n : Nat) (s : State ε ρ) : Nat := ∑ r ∈ Finset.range n, (4 * (s.inbox r).length - s.batch r)

def fiberWork (s : State ε ρ) : Nat := ∑ f ∈ Finset.range s.nfibers, (s.fiber f).status.work

def work (n : Nat) (s : State ε ρ) : Nat := 5 * messageWork s + inboxWork n s + fiberWork s

/-! ### Where the messages and the fibers may be -/

structure Fiber.Fits (n : Nat) (x : Fiber) : Prop where
  cpu : x.cpu < n
  target : ∀ m target w, x.call = some (m, .made target w) → target < n
  order : ∀ m pc k pc', x.handler = some (m, pc) → x.call = some (k, pc') → m < k
  ended : x.status = .terminated → x.atEnd = true

structure Bounded (n : Nat) (s : State ε ρ) : Prop where
  fiber : ∀ f < s.nfibers, (s.fiber f).Fits n
  inbox : ∀ r, s.inbox r ≠ [] → r < n
  batch : ∀ r, s.batch r ≤ (s.inbox r).length
  cpu : ∀ m msg, s.heap m = some msg → msg.cpu < n

variable {n : Nat} {s t : State ε ρ} {x : Fiber} {f : FiberId} {m k : MsgId} {r : Cpu} {a : Action ε ρ}

theorem Fiber.Fits.call_none (h : x.Fits n) (hx : x.status = .terminated) : x.call = none :=
  x.call_of_atEnd (h.ended hx)

theorem Fiber.Fits.finished (h : x.Fits n) (hx : x.status = .terminated) {pc : HandlerPc}
    (hh : x.handler = some (m, pc)) : pc = .finished := by
  have hend := h.ended hx
  rw [Fiber.atEnd, h.call_none hx, hh] at hend
  cases pc with
  | finished => rfl
  | start | inFn | processed => cases hend

theorem Fiber.Fits.setStatus (h : x.Fits n) {status : Status} {linked : Bool}
    (hs : status = .terminated → x.atEnd = true) : Fiber.Fits n { x with status := status, linked := linked } :=
  ⟨h.cpu, h.target, h.order, hs⟩

theorem Fiber.Fits.goOn (h : x.Fits n) (hx : x.status = .active) {call : Option (MsgId × CallPc)}
    {handler : Option (MsgId × HandlerPc)}
    (htarget : ∀ m target w, call = some (m, .made target w) → target < n)
    (horder : ∀ m pc k pc', handler = some (m, pc) → call = some (k, pc') → m < k) :
    Fiber.Fits n { x with call := call, handler := handler } := by
  refine ⟨h.cpu, htarget, horder, ?_⟩
  intro ht
  cases hx.symm.trans ht

theorem Bounded.setFiber (h : Bounded n s) (hx : x.Fits n) : Bounded n (s.setFiber f x) := by
  refine ⟨?_, h.inbox, h.batch, h.cpu⟩
  intro g hg
  show (Function.update s.fiber f x g).Fits n
  by_cases hgf : g = f
  · subst hgf
    rwa [Function.update_self]
  · rw [Function.update_of_ne hgf]
    exact h.fiber g hg

theorem Bounded.store (h : Bounded n s) {msg : Option (Message ε ρ)} (hmsg : ∀ y, msg = some y → y.cpu < n) :
    Bounded n (s.store m msg) := by
  refine ⟨h.fiber, h.inbox, h.batch, ?_⟩
  intro k y hy
  change Function.update s.heap m msg k = some y at hy
  by_cases hk : k = m
  · subst hk
    rw [Function.update_self] at hy
    exact hmsg y hy
  · rw [Function.update_of_ne hk] at hy
    exact h.cpu k y hy

theorem Bounded.log (h : Bounded n s) (es : List (Event ε ρ)) : Bounded n (s.log m es) :=
  ⟨h.fiber, h.inbox, h.batch, h.cpu⟩

theorem Bounded.setActive (h : Bounded n s) (o : Option FiberId) : Bounded n (s.setActive r o) :=
  ⟨h.fiber, h.inbox, h.batch, h.cpu⟩

theorem Bounded.fail (h : Bounded n s) (e : Fault) : Bounded n (s.fail e) :=
  ⟨h.fiber, h.inbox, h.batch, h.cpu⟩

theorem Bounded.delete (h : Bounded n s) : Bounded n (s.delete m) := (h.store (by simp)).log _

theorem Bounded.submitTo (h : Bounded n s) (hr : r < n) : Bounded n (s.submitTo r m) := by
  refine ⟨h.fiber, ?_, ?_, h.cpu⟩
  · intro q hq
    change Function.update s.inbox r _ q ≠ [] at hq
    by_cases hqr : q = r
    · rwa [hqr]
    · rw [Function.update_of_ne hqr] at hq
      exact h.inbox q hq
  · intro q
    have hle := h.batch q
    show s.batch q ≤ (Function.update s.inbox r _ q).length
    by_cases hqr : q = r
    · subst hqr
      rw [Function.update_self, List.length_append]
      omega
    · rwa [Function.update_of_ne hqr]

theorem Bounded.spawn (h : Bounded n s) (hr : r < n) (handler : Option (MsgId × HandlerPc)) :
    Bounded n (s.spawn r handler) := by
  refine ⟨?_, h.inbox, h.batch, h.cpu⟩
  intro g hg
  show (Function.update s.fiber s.nfibers ⟨r, .ready, false, handler, none⟩ g).Fits n
  by_cases hgf : g = s.nfibers
  · subst hgf
    rw [Function.update_self]
    exact ⟨hr, by simp, by simp, by simp⟩
  · rw [Function.update_of_ne hgf]
    exact h.fiber g (Nat.lt_of_le_of_ne (Nat.le_of_lt_succ hg) hgf)

/-! ### The work of one operation -/

@[simp]
theorem messageWork_setFiber : messageWork (s.setFiber f x) = messageWork s := rfl

@[simp]
theorem messageWork_store (msg : Option (Message ε ρ)) : messageWork (s.store m msg) = messageWork s := rfl

@[simp]
theorem messageWork_setActive (o : Option FiberId) : messageWork (s.setActive r o) = messageWork s := rfl

@[simp]
theorem messageWork_submitTo : messageWork (s.submitTo r m) = messageWork s := rfl

@[simp]
theorem messageWork_spawn (handler : Option (MsgId × HandlerPc)) :
    messageWork (s.spawn r handler) = messageWork s := rfl

@[simp]
theorem inboxWork_setFiber : inboxWork n (s.setFiber f x) = inboxWork n s := rfl

@[simp]
theorem inboxWork_store (msg : Option (Message ε ρ)) : inboxWork n (s.store m msg) = inboxWork n s := rfl

@[simp]
theorem inboxWork_log (es : List (Event ε ρ)) : inboxWork n (s.log m es) = inboxWork n s := rfl

@[simp]
theorem inboxWork_setActive (o : Option FiberId) : inboxWork n (s.setActive r o) = inboxWork n s := rfl

@[simp]
theorem inboxWork_spawn (handler : Option (MsgId × HandlerPc)) :
    inboxWork n (s.spawn r handler) = inboxWork n s := rfl

@[simp]
theorem fiberWork_store (msg : Option (Message ε ρ)) : fiberWork (s.store m msg) = fiberWork s := rfl

@[simp]
theorem fiberWork_log (es : List (Event ε ρ)) : fiberWork (s.log m es) = fiberWork s := rfl

@[simp]
theorem fiberWork_setActive (o : Option FiberId) : fiberWork (s.setActive r o) = fiberWork s := rfl

@[simp]
theorem fiberWork_submitTo : fiberWork (s.submitTo r m) = fiberWork s := rfl

theorem messageWork_log (hm : m < s.nmsgs) {es : List (Event ε ρ)} (hlen : ((s.log m es).trace m).length ≤ 8) :
    messageWork (s.log m es) + es.length = messageWork s := by
  have htrace : (s.log m es).trace m = s.trace m ++ es := Function.update_self ..
  have hsum := sum_change (S := Finset.range s.nmsgs) (f := fun j => 8 - (s.trace j).length)
    (g := fun j => 8 - ((s.log m es).trace j).length) (Finset.mem_range.mpr hm) ?_
  · simp only [htrace, List.length_append] at hsum hlen
    show ∑ j ∈ Finset.range s.nmsgs, (8 - ((s.log m es).trace j).length) + es.length =
      ∑ j ∈ Finset.range s.nmsgs, (8 - (s.trace j).length)
    omega
  · intro j hj
    show 8 - (Function.update s.trace m _ j).length = _
    rw [Function.update_of_ne hj]

theorem fiberWork_setFiber (hf : f < s.nfibers) :
    fiberWork (s.setFiber f x) + (s.fiber f).status.work = fiberWork s + x.status.work := by
  have hsum := sum_change (S := Finset.range s.nfibers) (f := fun g => (s.fiber g).status.work)
    (g := fun g => ((s.setFiber f x).fiber g).status.work) (Finset.mem_range.mpr hf) ?_
  · simp only [State.setFiber, Function.update_self] at hsum
    exact hsum
  · intro g hg
    show (Function.update s.fiber f x g).status.work = _
    rw [Function.update_of_ne hg]

theorem fiberWork_goOn (hf : f < s.nfibers) (hx : x.status = (s.fiber f).status) :
    fiberWork (s.setFiber f x) = fiberWork s := by
  have hfiber := fiberWork_setFiber (x := x) hf
  rw [hx] at hfiber
  exact Nat.add_right_cancel hfiber

theorem fiberWork_spawn (handler : Option (MsgId × HandlerPc)) :
    fiberWork (s.spawn r handler) = fiberWork s + 2 := by
  rw [fiberWork, State.spawn, Finset.sum_range_succ]
  congr 1
  · apply Finset.sum_congr rfl
    intro g hg
    show (Function.update s.fiber s.nfibers _ g).status.work = _
    rw [Function.update_of_ne (Nat.ne_of_lt (Finset.mem_range.mp hg))]
  · show (Function.update s.fiber s.nfibers _ s.nfibers).status.work = 2
    rw [Function.update_self]
    rfl

theorem inboxWork_submitTo (h : Bounded n s) (hr : r < n) :
    inboxWork n (s.submitTo r m) = inboxWork n s + 4 := by
  have hle := h.batch r
  have hsum := sum_change (S := Finset.range n) (f := fun q => 4 * (s.inbox q).length - s.batch q)
    (g := fun q => 4 * ((s.submitTo r m).inbox q).length - s.batch q) (Finset.mem_range.mpr hr) ?_
  · simp only [State.submitTo, Function.update_self, List.length_append, List.length_singleton] at hsum
    show ∑ q ∈ Finset.range n, (4 * ((s.submitTo r m).inbox q).length - s.batch q) =
      ∑ q ∈ Finset.range n, (4 * (s.inbox q).length - s.batch q) + 4
    simp only [State.submitTo]
    omega
  · intro q hq
    show 4 * (Function.update s.inbox r _ q).length - _ = _
    rw [Function.update_of_ne hq]

/-- The first message of a batch is taken out of the inbox. -/
def State.taken (s : State ε ρ) (r : Cpu) (k : Nat) (rest : List MsgId) : State ε ρ :=
  { s with inbox := Function.update s.inbox r rest, batch := Function.update s.batch r k }

theorem Bounded.taken (h : Bounded n s) {rest : List MsgId} (hb : s.batch r = k + 1)
    (hin : s.inbox r = m :: rest) : Bounded n (s.taken r k rest) := by
  have hr : r < n := h.inbox r (by simp [hin])
  refine ⟨h.fiber, ?_, ?_, h.cpu⟩
  · intro q hq
    change Function.update s.inbox r rest q ≠ [] at hq
    by_cases hqr : q = r
    · rwa [hqr]
    · rw [Function.update_of_ne hqr] at hq
      exact h.inbox q hq
  · intro q
    have hle := h.batch q
    show Function.update s.batch r k q ≤ (Function.update s.inbox r rest q).length
    by_cases hqr : q = r
    · subst hqr
      rw [Function.update_self, Function.update_self]
      rw [hb, hin, List.length_cons] at hle
      omega
    · rwa [Function.update_of_ne hqr, Function.update_of_ne hqr]

theorem inboxWork_taken (h : Bounded n s) {rest : List MsgId} (hb : s.batch r = k + 1)
    (hin : s.inbox r = m :: rest) : inboxWork n (s.taken r k rest) + 3 = inboxWork n s := by
  have hr : r < n := h.inbox r (by simp [hin])
  have hle := h.batch r
  rw [hb, hin, List.length_cons] at hle
  have hsum := sum_change (S := Finset.range n) (f := fun q => 4 * (s.inbox q).length - s.batch q)
    (g := fun q => 4 * ((s.taken r k rest).inbox q).length - (s.taken r k rest).batch q)
    (Finset.mem_range.mpr hr) ?_
  · simp only [State.taken, Function.update_self, hb, hin, List.length_cons] at hsum
    simp only [inboxWork, State.taken]
    omega
  · intro q hq
    simp only [State.taken, Function.update_of_ne hq]

theorem inboxWork_receiveAll (hr : r < n) (hb : s.batch r = 0) (hin : s.inbox r ≠ []) :
    inboxWork n { s with batch := Function.update s.batch r (s.inbox r).length } < inboxWork n s := by
  have hpos := List.length_pos_iff.mpr hin
  have hsum := sum_change (S := Finset.range n) (f := fun q => 4 * (s.inbox q).length - s.batch q)
    (g := fun q => 4 * (s.inbox q).length - Function.update s.batch r (s.inbox r).length q)
    (Finset.mem_range.mpr hr) ?_
  · simp only [Function.update_self, hb] at hsum
    simp only [inboxWork]
    omega
  · intro q hq
    rw [Function.update_of_ne hq]

/-! ### The steps -/

section Steps

variable [Inhabited ρ]

theorem Inv.trace_length (hi : Inv s) (m : MsgId) : (s.trace m).length ≤ 8 := by
  by_cases hm : m < s.nmsgs
  · obtain ⟨c, st, hp⟩ := hi.message m hm
    rw [hp.trace]
    cases st with
    | closed g out =>
      rw [Info.trace]
      split <;> simp
    | made | sent | spawned g | entered g | processed g out | replied g out | resumed g out => simp [Info.trace]
  · rw [hi.unused m (Nat.le_of_not_lt hm)]
    exact Nat.zero_le 8

theorem Inv.not_fail {e : Fault} (hi : Inv (s.fail e)) : False := by
  cases hi.fault

theorem Inv.active_status (hi : Inv s) (hc : s.hasControl f) : (s.fiber f).status = .active :=
  (hi.fiber f).active.mpr hc

theorem schedule_work (hb : Bounded n s) (hs : step n s (.schedule f) = some t) :
    Bounded n t ∧ 1 + work n t ≤ work n s := by
  simp only [Call.step, Option.ite_none_right_eq_some, Option.some.injEq] at hs
  obtain ⟨⟨hf, hready, -, -⟩, rfl⟩ := hs
  have hfits : Fiber.Fits n { s.fiber f with status := .active } := (hb.fiber f hf).setStatus (by simp)
  refine ⟨(hb.setFiber hfits).setActive _, ?_⟩
  have hfiber := fiberWork_setFiber (x := { s.fiber f with status := .active }) hf
  simp only [hready, Status.work] at hfiber
  simp only [work, messageWork_setActive, messageWork_setFiber, inboxWork_setActive, inboxWork_setFiber,
    fiberWork_setActive]
  omega

theorem release_work (hi : Inv s) (hb : Bounded n s) (hc : s.hasControl f) (status : Status)
    (hend : status = .terminated → (s.fiber f).atEnd = true) :
    Bounded n ((s.setFiber f { s.fiber f with status := status }).setActive (s.fiber f).cpu none) ∧
      work n ((s.setFiber f { s.fiber f with status := status }).setActive (s.fiber f).cpu none) + 1 =
        work n s + status.work := by
  have hf := (hi.fiber f).lt_of_control hc
  have hfits : Fiber.Fits n { s.fiber f with status := status } := (hb.fiber f hf).setStatus hend
  refine ⟨(hb.setFiber hfits).setActive _, ?_⟩
  have hfiber := fiberWork_setFiber (x := { s.fiber f with status := status }) hf
  simp only [hi.active_status hc, Status.work] at hfiber
  simp only [work, messageWork_setActive, messageWork_setFiber, inboxWork_setActive, inboxWork_setFiber,
    fiberWork_setActive, Status.work]
  omega

theorem messageWork_make (hi : Inv s) {target : Cpu} {w : Bool} :
    messageWork (s.make f target w) = messageWork s + 7 := by
  show ∑ j ∈ Finset.range (s.nmsgs + 1), (8 - (Function.update s.trace s.nmsgs _ j).length) = _
  rw [Finset.sum_range_succ, Function.update_self]
  congr 1
  · apply Finset.sum_congr rfl
    intro j hj
    rw [Function.update_of_ne (Nat.ne_of_lt (Finset.mem_range.mp hj))]
  · show 8 - (s.trace s.nmsgs ++ _).length = 7
    rw [hi.unused s.nmsgs (Nat.le_refl _)]
    rfl

theorem make_work (hi : Inv s) (hb : Bounded n s) (hc : s.hasControl f) {target : Cpu} (htarget : target < n)
    (w : Bool) : Bounded n (s.make f target w) ∧ work n (s.make f target w) = work n s + 35 := by
  have hf := (hi.fiber f).lt_of_control hc
  have hfits : Fiber.Fits n { s.fiber f with call := some (s.nmsgs, .made target w) } := by
    apply (hb.fiber f hf).goOn (hi.active_status hc)
    · intro m target' w' hcall
      cases hcall
      exact htarget
    · intro m pc k pc' hh hcall
      cases hcall
      exact (hi.fiber f).handler m pc hh
  constructor
  · have hmsg : ∀ y : Message ε ρ, some (if w then makeOneWayLambdaMessage (s.fiber f).cpu
        else makeFiberLambdaMessage (s.fiber f).cpu f) = some y → y.cpu < n := by
      intro y hy
      have hcpu := (hb.fiber f hf).cpu
      cases hy
      cases w
      · exact hcpu
      · exact hcpu
    have hmade := ((hb.store (m := s.nmsgs) hmsg).setFiber (f := f) hfits).log (m := s.nmsgs)
      [.called f (s.fiber f).cpu target w]
    exact ⟨fun g hg => hmade.fiber g hg, hmade.inbox, hmade.batch, hmade.cpu⟩
  · have hfiber : fiberWork (s.make f target w) = fiberWork s := fiberWork_goOn hf rfl
    have hinbox : inboxWork n (s.make f target w) = inboxWork n s := rfl
    rw [work, messageWork_make hi, hinbox, hfiber, work]
    omega

theorem submit_work (hi : Inv s) (hb : Bounded n s) (hi' : Inv t) (hs : step n s (.submit f) = some t) :
    Bounded n t ∧ 1 + work n t ≤ work n s := by
  simp only [Call.step] at hs
  split at hs <;> simp only [Option.ite_none_right_eq_some, Option.some.injEq, reduceCtorEq] at hs
  rename_i m target w hcall
  obtain ⟨hc, rfl⟩ := hs
  have hf := (hi.fiber f).lt_of_control hc
  have htarget := (hb.fiber f hf).target m target w hcall
  have hfits : Fiber.Fits n { s.fiber f with call := if w then none else some (m, .sent) } := by
    apply (hb.fiber f hf).goOn (hi.active_status hc)
    · intro k target' w' hk
      cases w <;> cases hk
    · intro k pc k' pc' hh hk
      cases w <;> cases hk
      exact (hb.fiber f hf).order k pc m _ hh hcall
  refine ⟨((hb.submitTo htarget).setFiber hfits).log _, ?_⟩
  have hmessage := messageWork_log (s := (s.submitTo target m).setFiber f
    { s.fiber f with call := if w then none else some (m, .sent) }) ((hi.fiber f).call m _ hcall)
    (hi'.trace_length m)
  have hfiber := fiberWork_goOn (s := s.submitTo target m) (f := f)
    (x := { s.fiber f with call := if w then none else some (m, .sent) }) hf rfl
  have hinbox := inboxWork_submitTo (m := m) hb htarget
  simp only [messageWork_setFiber, messageWork_submitTo, List.length_singleton, fiberWork_submitTo]
    at hmessage hfiber
  simp only [work, inboxWork_log, inboxWork_setFiber, fiberWork_log]
  omega

theorem suspend_work (hi : Inv s) (hb : Bounded n s) (hs : step n s (.suspend f) = some t) :
    Bounded n t ∧ 1 + work n t ≤ work n s := by
  simp only [Call.step] at hs
  split at hs <;> simp only [Option.ite_none_right_eq_some, Option.some.injEq, reduceCtorEq] at hs
  rename_i m hcall
  obtain ⟨hc, rfl⟩ := hs
  have hf := (hi.fiber f).lt_of_control hc
  let x : Fiber := { s.fiber f with status := .suspended, linked := true, call := some (m, .waiting) }
  have hsuspend : s.suspend f m = (s.setFiber f x).setActive x.cpu none := by
    simp only [State.suspend, (hi.fiber f).not_linked hc, Bool.false_eq_true, if_false, x]
  have hfits : x.Fits n := by
    refine ⟨(hb.fiber f hf).cpu, by simp [x], ?_, by simp [x]⟩
    intro k pc k' pc' hh hk
    cases hk
    exact (hb.fiber f hf).order k pc m _ hh hcall
  rw [hsuspend]
  refine ⟨(hb.setFiber hfits).setActive _, ?_⟩
  have hfiber := fiberWork_setFiber (x := x) hf
  simp only [hi.active_status hc, Status.work, x] at hfiber
  simp only [work, messageWork_setActive, messageWork_setFiber, inboxWork_setActive, inboxWork_setFiber,
    fiberWork_setActive, x]
  omega

theorem return_work (hi : Inv s) (hb : Bounded n s) (hi' : Inv t) (hs : step n s (.return f) = some t) :
    Bounded n t ∧ 1 + work n t ≤ work n s := by
  simp only [Call.step] at hs
  split at hs <;> simp only [Option.ite_none_right_eq_some, reduceCtorEq] at hs
  rename_i m hcall
  obtain ⟨hc, hs⟩ := hs
  have hf := (hi.fiber f).lt_of_control hc
  have hm := (hi.fiber f).call m _ hcall
  rw [if_neg (by simp [(hi.fiber f).not_linked hc])] at hs
  split at hs
  · cases hs
    exact hi'.not_fail.elim
  · rename_i msg hheap
    cases hs
    have hfits : Fiber.Fits n { s.fiber f with call := none } := by
      apply (hb.fiber f hf).goOn (hi.active_status hc)
      · simp
      · simp
    refine ⟨((hb.setFiber hfits).log _).delete, ?_⟩
    let u : State ε ρ := (s.setFiber f { s.fiber f with call := none }).log m [.returned f msg.result]
    have hdeleted : messageWork (u.delete m) + 1 = messageWork u :=
      messageWork_log (s := u.store m none) hm (hi'.trace_length m)
    have hlength : (u.trace m).length ≤ 8 := by
      have hle := hi'.trace_length m
      change (Function.update u.trace m (u.trace m ++ _) m).length ≤ 8 at hle
      rw [Function.update_self, List.length_append] at hle
      omega
    have hreturned : messageWork u + 1 = messageWork s :=
      messageWork_log (s := s.setFiber f { s.fiber f with call := none }) hm hlength
    have hfiber : fiberWork (u.delete m) = fiberWork s := fiberWork_goOn hf rfl
    have hinbox : inboxWork n (u.delete m) = inboxWork n s := rfl
    change 1 + work n (u.delete m) ≤ _
    rw [work, work, hfiber, hinbox]
    omega

theorem receiveAll_work (hb : Bounded n s) (hs : step n s (.receiveAll r) = some t) :
    Bounded n t ∧ (decide (s.inbox r ≠ [])).toNat + work n t ≤ work n s := by
  simp only [Call.step, Option.ite_none_right_eq_some, Option.some.injEq] at hs
  obtain ⟨⟨-, hbatch⟩, rfl⟩ := hs
  constructor
  · refine ⟨hb.fiber, hb.inbox, ?_, hb.cpu⟩
    intro q
    show Function.update s.batch r _ q ≤ _
    by_cases hqr : q = r
    · subst hqr
      rw [Function.update_self]
    · rw [Function.update_of_ne hqr]
      exact hb.batch q
  · by_cases hin : s.inbox r = []
    · have hsame : Function.update s.batch r (s.inbox r).length = s.batch := by
        rw [hin, List.length_nil, ← hbatch, Function.update_eq_self]
      rw [hsame]
      simp [hin]
    · have hlt := inboxWork_receiveAll (hb.inbox r hin) hbatch hin
      have hmessage : messageWork { s with batch := Function.update s.batch r (s.inbox r).length } =
        messageWork s := rfl
      have hfiber : fiberWork { s with batch := Function.update s.batch r (s.inbox r).length } =
        fiberWork s := rfl
      rw [decide_eq_true hin, work, work, hmessage, hfiber, Bool.toNat_true]
      omega

theorem processEnter_work (hi : Inv s) (hb : Bounded n s) (hi' : Inv t)
    (hs : step n s (.processEnter f) = some t) : Bounded n t ∧ 1 + work n t ≤ work n s := by
  simp only [Call.step] at hs
  split at hs <;> simp only [Option.ite_none_right_eq_some, reduceCtorEq] at hs
  rename_i m hh
  obtain ⟨hc, hs⟩ := hs
  split at hs
  · cases hs
    exact hi'.not_fail.elim
  · cases hs
    have hf := (hi.fiber f).lt_of_control hc
    have hfits : Fiber.Fits n { s.fiber f with handler := some (m, .inFn) } := by
      apply (hb.fiber f hf).goOn (hi.active_status hc) (hb.fiber f hf).target
      intro k pc k' pc' hk hcall
      cases hk
      exact (hb.fiber f hf).order m _ k' pc' hh hcall
    refine ⟨(hb.setFiber hfits).log _, ?_⟩
    let u : State ε ρ := s.setFiber f { s.fiber f with handler := some (m, .inFn) }
    have hmessage : messageWork (u.log m [.entered f (s.fiber f).cpu]) + 1 = messageWork u :=
      messageWork_log ((hi.fiber f).handler m _ hh) (hi'.trace_length m)
    have hfiber : fiberWork u = fiberWork s := fiberWork_goOn hf rfl
    change 1 + work n (u.log m _) ≤ _
    rw [work, work, inboxWork_log, fiberWork_log, hfiber]
    have hsame : messageWork u = messageWork s ∧ inboxWork n u = inboxWork n s := ⟨rfl, rfl⟩
    omega

theorem processExit_work {out : Except ε ρ} (hi : Inv s) (hb : Bounded n s) (hi' : Inv t)
    (hs : step n s (.processExit f out) = some t) : Bounded n t ∧ 1 + work n t ≤ work n s := by
  simp only [Call.step] at hs
  split at hs <;> simp only [Option.ite_none_right_eq_some, reduceCtorEq] at hs
  rename_i m hh
  obtain ⟨⟨hc, hcall⟩, hs⟩ := hs
  split at hs
  · cases hs
    exact hi'.not_fail.elim
  · rename_i msg hheap
    obtain ⟨-, rfl⟩ := Option.ite_none_left_eq_some.mp hs |>.imp_right Option.some.inj
    have hf := (hi.fiber f).lt_of_control hc
    have hfits : Fiber.Fits n { s.fiber f with handler := some (m, .processed) } := by
      apply (hb.fiber f hf).goOn (hi.active_status hc) (hb.fiber f hf).target
      intro k pc k' pc' hk hk'
      cases hcall.symm.trans hk'
    have hstored : Bounded n (s.store m (some (msg.process out))) := by
      apply hb.store
      intro y hy
      cases hy
      rw [Message.process_cpu]
      exact hb.cpu m msg hheap
    refine ⟨(hstored.setFiber hfits).log _, ?_⟩
    let u : State ε ρ := (s.store m (some (msg.process out))).setFiber f
      { s.fiber f with handler := some (m, .processed) }
    have hmessage : messageWork (u.log m [.processed f out]) + 1 = messageWork u :=
      messageWork_log ((hi.fiber f).handler m _ hh) (hi'.trace_length m)
    have hfiber : fiberWork u = fiberWork s :=
      fiberWork_goOn (s := s.store m (some (msg.process out))) hf rfl
    have hsame : messageWork u = messageWork s ∧ inboxWork n u = inboxWork n s := ⟨rfl, rfl⟩
    change 1 + work n (u.log m _) ≤ _
    rw [work, work, inboxWork_log, fiberWork_log, hfiber]
    omega

theorem complete_work (hi : Inv s) (hb : Bounded n s) (hi' : Inv t) (hs : step n s (.complete f) = some t) :
    Bounded n t ∧ 1 + work n t ≤ work n s := by
  simp only [Call.step] at hs
  split at hs <;> simp only [Option.ite_none_right_eq_some, reduceCtorEq] at hs
  rename_i m hh
  obtain ⟨hc, hs⟩ := hs
  have hf := (hi.fiber f).lt_of_control hc
  have hm := (hi.fiber f).handler m _ hh
  have hfits : Fiber.Fits n { s.fiber f with handler := some (m, .finished) } := by
    apply (hb.fiber f hf).goOn (hi.active_status hc) (hb.fiber f hf).target
    intro k pc k' pc' hk hcall
    cases hk
    exact (hb.fiber f hf).order m _ k' pc' hh hcall
  let u : State ε ρ := s.setFiber f { s.fiber f with handler := some (m, .finished) }
  have hu : Bounded n u := hb.setFiber hfits
  have hfiber : fiberWork u = fiberWork s := fiberWork_goOn hf rfl
  have hsame : messageWork u = messageWork s ∧ inboxWork n u = inboxWork n s := ⟨rfl, rfl⟩
  split at hs
  · cases hs
    exact hi'.not_fail.elim
  · rename_i msg hheap
    split at hs
    · rename_i how
      have hfinish : u.finish m msg = u.delete m := if_pos how
      obtain rfl : u.delete m = t := hfinish ▸ Option.some.inj hs
      refine ⟨hu.delete, ?_⟩
      have hmessage : messageWork (u.delete m) + 1 = messageWork u :=
        messageWork_log (s := u.store m none) hm (hi'.trace_length m)
      have hrest : inboxWork n (u.delete m) = inboxWork n u ∧ fiberWork (u.delete m) = fiberWork u := ⟨rfl, rfl⟩
      rw [work, work]
      omega
    · obtain rfl : (u.submitTo msg.cpu m).log m [.submitted msg.cpu] = t := Option.some.inj hs
      have hcpu := hb.cpu m msg hheap
      refine ⟨(hu.submitTo hcpu).log _, ?_⟩
      have hmessage := messageWork_log (s := u.submitTo msg.cpu m) hm (hi'.trace_length m)
      have hinbox := inboxWork_submitTo (m := m) hu hcpu
      rw [messageWork_submitTo, List.length_singleton] at hmessage
      rw [work, work, inboxWork_log, fiberWork_log, fiberWork_submitTo]
      omega

theorem deliver_work (hi : Inv s) (hb : Bounded n s) (hi' : Inv t) (hs : step n s (.deliver r) = some t) :
    Bounded n t ∧ 1 + work n t ≤ work n s := by
  simp only [Call.step] at hs
  split at hs <;> simp only [Option.ite_none_right_eq_some, Option.some.injEq, reduceCtorEq] at hs
  rename_i k m rest hbatch hin
  obtain ⟨-, hs⟩ := hs
  have hm : m < s.nmsgs := (hi.inbox r).2 m (by simp [hin])
  have hr : r < n := hb.inbox r (by simp [hin])
  let u : State ε ρ := s.taken r k rest
  have hu : Bounded n u := hb.taken hbatch hin
  have hinbox : inboxWork n u + 3 = inboxWork n s := inboxWork_taken hb hbatch hin
  have hsame : messageWork u = messageWork s ∧ fiberWork u = fiberWork s := ⟨rfl, rfl⟩
  change u.processFn r m = t at hs
  rw [State.processFn] at hs
  split at hs
  · subst hs
    exact hi'.not_fail.elim
  · rename_i msg hheap
    split at hs
    · rw [State.finish] at hs
      split at hs
      · subst hs
        refine ⟨hu.delete, ?_⟩
        have hmessage : messageWork (u.delete m) + 1 = messageWork u :=
          messageWork_log (s := u.store m none) hm (hi'.trace_length m)
        have hrest : inboxWork n (u.delete m) = inboxWork n u ∧ fiberWork (u.delete m) = fiberWork u :=
          ⟨rfl, rfl⟩
        rw [work, work]
        omega
      · split at hs
        · rename_i g hcontext
          rw [State.resume] at hs
          split at hs
          · rename_i hlinked
            subst hs
            have hsuspended : (s.fiber g).status = .suspended := (hi.fiber g).linked.mp hlinked
            have hg : g < s.nfibers := (hi.fiber g).lt_of_status (by simp [hsuspended])
            have hfits : Fiber.Fits n { s.fiber g with status := .ready, linked := false } :=
              (hb.fiber g hg).setStatus (by simp)
            refine ⟨(hu.setFiber hfits).log _, ?_⟩
            let v : State ε ρ := u.setFiber g { s.fiber g with status := .ready, linked := false }
            have hmessage : messageWork (v.log m [.resumed g]) + 1 = messageWork v :=
              messageWork_log hm (hi'.trace_length m)
            have hfiber : fiberWork v + (s.fiber g).status.work = fiberWork u + 2 := fiberWork_setFiber hg
            have hrest : messageWork v = messageWork u ∧ inboxWork n v = inboxWork n u := ⟨rfl, rfl⟩
            change 1 + work n (v.log m _) ≤ _
            rw [work, work, inboxWork_log, fiberWork_log]
            rw [hsuspended, Status.work] at hfiber
            omega
          · subst hs
            cases hi'.fault
        · subst hs
          exact hi'.not_fail.elim
    · subst hs
      refine ⟨hu.spawn hr _, ?_⟩
      have hfiber := fiberWork_spawn (s := u) (r := r) (some (m, .start))
      rw [work, work, messageWork_spawn, inboxWork_spawn]
      omega

/-- Each step of the protocol takes some of the work away, and any other adds no more than its cost. -/
theorem step_work (hi : Inv s) (hb : Bounded n s) (hs : step n s a = some t) :
    Bounded n t ∧ (handles s a).toNat + work n t ≤ work n s + cost a := by
  have hi' := inv_step hi hs
  cases a with
  | spawn r =>
    simp only [Call.step, Option.ite_none_right_eq_some, Option.some.injEq] at hs
    obtain ⟨hr, rfl⟩ := hs
    refine ⟨hb.spawn hr none, ?_⟩
    have hfiber := fiberWork_spawn (s := s) (r := r) none
    simp only [handles, cost, work, messageWork_spawn, inboxWork_spawn, Bool.toNat_false]
    omega
  | schedule f => exact schedule_work hb hs
  | yield f =>
    simp only [Call.step, Option.ite_none_right_eq_some, Option.some.injEq] at hs
    obtain ⟨⟨hc, -⟩, rfl⟩ := hs
    obtain ⟨hbounded, hwork⟩ := release_work hi hb hc .ready (by simp)
    refine ⟨hbounded, ?_⟩
    simp only [handles, cost, Bool.toNat_false]
    simp only [Status.work] at hwork
    omega
  | runAt f target =>
    simp only [Call.step, Option.ite_none_right_eq_some, Option.some.injEq] at hs
    obtain ⟨⟨hc, -, htarget⟩, rfl⟩ := hs
    obtain ⟨hbounded, hwork⟩ := make_work hi hb hc htarget false
    refine ⟨hbounded, ?_⟩
    simp only [handles, cost, Bool.toNat_false]
    omega
  | runAtAsync f target =>
    simp only [Call.step, Option.ite_none_right_eq_some, Option.some.injEq] at hs
    obtain ⟨⟨hc, -, htarget⟩, rfl⟩ := hs
    obtain ⟨hbounded, hwork⟩ := make_work hi hb hc htarget true
    refine ⟨hbounded, ?_⟩
    simp only [handles, cost, Bool.toNat_false]
    omega
  | submit f => exact submit_work hi hb hi' hs
  | suspend f => exact suspend_work hi hb hs
  | «return» f => exact return_work hi hb hi' hs
  | receiveAll r => exact receiveAll_work hb hs
  | deliver r => exact deliver_work hi hb hi' hs
  | processEnter f => exact processEnter_work hi hb hi' hs
  | processExit f out => exact processExit_work hi hb hi' hs
  | complete f => exact complete_work hi hb hi' hs
  | terminate f =>
    simp only [Call.step, Option.ite_none_right_eq_some, Option.some.injEq] at hs
    obtain ⟨⟨hc, hend⟩, rfl⟩ := hs
    obtain ⟨hbounded, hwork⟩ := release_work hi hb hc .terminated fun _ => hend
    refine ⟨hbounded, ?_⟩
    simp only [handles, cost, Bool.toNat_true]
    simp only [Status.work] at hwork
    omega

omit [Inhabited ρ] in
theorem Bounded.initial : Bounded n (initial : State ε ρ) := by
  refine ⟨?_, ?_, ?_, ?_⟩
  · intro f hf
    exact absurd hf (Nat.not_lt_zero f)
  · intro r hr
    exact absurd rfl hr
  · intro r
    exact Nat.zero_le _
  · intro m msg hm
    cases hm

theorem bounded_reachable (h : (machine n).Reachable s) : Inv s ∧ Bounded n s := by
  apply h.invariant (P := fun s => Inv s ∧ Bounded n s) ⟨inv_initial, .initial⟩
  intro s a t hs hstep
  exact ⟨inv_step hs.1 hstep, (step_work hs.1 hs.2 hstep).1⟩

end Steps

end Dumbo.Reactor.Call
