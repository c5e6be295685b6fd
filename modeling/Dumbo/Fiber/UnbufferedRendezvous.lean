import Dumbo.Fiber.UnbufferedChannel
import Dumbo.Lib.Rendezvous

/-!
# Values that are handed over

The calls of an unbuffered channel make a rendezvous, in which a producer whose value has been popped may
report a time-out all the same: the status is read off the clock when the producer goes on.
-/

namespace Dumbo.Fiber.UnbufferedChannel

open Transition

variable {F α : Type*}

/-- How far a suspended call has come. -/
def party : Mode (Call α) → Option (Rendezvous.Party α)
  | .outside => none
  | .suspended c | .expired c => some ⟨if c.offering then .offering else .calling, c.id, c.op.value⟩
  | .notified c => some ⟨if c.offering then .served else .calling, c.id, c.op.value⟩

def waiting (fibers : Fibers F Side (Call α)) (f : F) : Option (Rendezvous.Party α) :=
  party (fibers.mode f)

def Return.outcome (r : Return F α) : Rendezvous.Outcome α :=
  match r.op.value, r.answer with
  | some _, .status .success => .given
  | some _, .status .closed | some _, .status .timeout => .nothing
  | none, .value v i => .took v i
  | none, .status _ | none, .fiberError => .nothing
  | _, _ => .other

def Return.entry (r : Return F α) : Rendezvous.Entry α := ⟨r.id, r.op.value, r.outcome⟩

theorem outcome_closed (f : F) (op : Op α) (id : Nat) :
    Return.outcome ⟨f, op, id, .status .closed⟩ = .nothing := by
  rw [Return.outcome]
  cases op.value <;> rfl

theorem outcome_timeout (f : F) (op : Op α) (id : Nat) :
    Return.outcome ⟨f, op, id, .status .timeout⟩ = .nothing := by
  rw [Return.outcome]
  cases op.value <;> rfl

theorem Return.outcome_given {r : Return F α} (h : r.op.value.isSome = true) :
    r.outcome = .given ↔ r.answer = .status .success := by
  obtain ⟨v, hv⟩ := Option.isSome_iff_exists.mp h
  rw [Return.outcome, hv]
  cases r.answer with
  | status status => cases status <;> simp
  | value v i => simp
  | fiberError => simp

theorem Return.outcome_nothing {r : Return F α} (h : r.op.value.isSome = true) :
    r.outcome = .nothing ↔ r.answer = .status .timeout ∨ r.answer = .status .closed := by
  obtain ⟨v, hv⟩ := Option.isSome_iff_exists.mp h
  rw [Return.outcome, hv]
  cases r.answer with
  | status status => cases status <;> simp
  | value v i => simp
  | fiberError => simp

def Slot.offer (slot : Slot F α) : Rendezvous.Offer F α := ⟨slot.value, slot.ctx, slot.id⟩

variable [DecidableEq F]

namespace State

def parties (s : State F α) : F → Option (Rendezvous.Party α) :=
  match s.fibers.running with
  | some (f, c) => Function.update (waiting s.fibers) f (some ⟨.calling, c.id, c.op.value⟩)
  | none => waiting s.fibers

def rendezvous (s : State F α) : Rendezvous F α :=
  ⟨s.slot.map Slot.offer, s.parties, s.calls.map Op.value, s.log.map Return.entry⟩

end State

variable {s t : State F α} {f : F} {c : Call α} {fibers : Fibers F Side (Call α)}

/-! ### The steps of the fibers -/

omit [DecidableEq F] in
theorem waiting_outside (h : fibers.mode f = .outside) : waiting fibers f = none := by
  rw [waiting, h]
  rfl

theorem waiting_update (mode : F → Mode (Call α)) (f : F) (m : Mode (Call α)) :
    (fun g => party (Function.update mode f m g)) =
      Function.update (fun g => party (mode g)) f (party m) := by
  funext g
  rw [Function.update_apply, Function.update_apply]
  split_ifs
  · rfl
  · rfl

theorem waiting_park (fibers : Fibers F Side (Call α)) (f : F) (c : Call α) :
    waiting (fibers.park f c) = Function.update (waiting fibers) f (party (.suspended c)) :=
  waiting_update fibers.mode f _

theorem waiting_setReady (fibers : Fibers F Side (Call α)) (f : F) :
    waiting (fibers.setReady f) =
      Function.update (waiting fibers) f (party (fibers.mode f).notify) :=
  waiting_update fibers.mode f _

theorem waiting_pick (fibers : Fibers F Side (Call α)) (f : F) :
    waiting (fibers.pick f) = Function.update (waiting fibers) f none :=
  waiting_update fibers.mode f _

theorem waiting_expire (h : fibers.mode f = .suspended c) :
    waiting (fibers.expire f c) = waiting fibers := by
  refine (waiting_update fibers.mode f _).trans ?_
  have hf : party (.expired c) = waiting fibers f := by
    rw [waiting, h]
    rfl
  rw [hf]
  exact Function.update_eq_self f _

omit [DecidableEq F] in
theorem party_notified {side : Side} {m : Mode (Call α)} (hm : m = .suspended c ∨ m = .expired c)
    (hc : Wait.queue c = some side) : party (.notified c) = party m := by
  have hoffering : c.offering = false := by
    refine (Bool.not_eq_true _).mp fun ho => ?_
    simp only [Wait.queue, ho, if_true] at hc
    exact absurd hc (by simp)
  rcases hm with rfl | rfl
  · simp [party, hoffering]
  · simp [party, hoffering]

theorem waiting_wakeOne (h : fibers.WellFormed) (side : Side) :
    waiting (fibers.wakeOne side) = waiting fibers := by
  funext g
  rw [waiting, waiting]
  rcases h.wakeOne_mode side g with hmode | ⟨c, hold, hc, hnew⟩
  · rw [hmode]
  · rw [hnew]
    exact party_notified hold hc

theorem waiting_wakeAll (h : fibers.WellFormed) (side : Side) :
    waiting (fibers.wakeAll side) = waiting fibers := by
  funext g
  rw [waiting, waiting]
  rcases h.wakeAll_mode side g with hmode | ⟨c, hold, hc, hnew⟩
  · rw [hmode]
  · rw [hnew]
    exact party_notified hold hc

omit [DecidableEq F] in
theorem mode_of_offering {m : Mode (Call α)} {id : Nat} {o : Option α}
    (h : party m = some ⟨.offering, id, o⟩) :
    ∃ c, (m = .suspended c ∨ m = .expired c) ∧ c.offering = true ∧ c.id = id ∧ c.op.value = o := by
  cases m with
  | outside => exact absurd h (by simp [party])
  | suspended c | expired c =>
    simp only [party, Option.some.injEq, Rendezvous.Party.mk.injEq, ite_eq_left_iff, reduceCtorEq,
      imp_false, Bool.not_eq_false, Bool.not_eq_true] at h
    exact ⟨c, by simp, h⟩
  | notified c =>
    simp only [party, Option.some.injEq, Rendezvous.Party.mk.injEq] at h
    split_ifs at h <;> exact absurd h.1 (by simp)

omit [DecidableEq F] in
theorem party_notify {m : Mode (Call α)} {id : Nat} {o : Option α}
    (h : party m = some ⟨.offering, id, o⟩) : party m.notify = some ⟨.served, id, o⟩ := by
  obtain ⟨c, hm, hc, rfl, rfl⟩ := mode_of_offering h
  rw [Mode.notify_of_waits hm, party, if_pos hc]

omit [DecidableEq F] in
theorem notify_of_offering (hfibers : fibers.WellFormed) {id : Nat} {o : Option α}
    (hf : waiting fibers f = some ⟨.offering, id, o⟩) :
    ∃ c, (fibers.mode f).notify = .notified c ∧ (Wait.queue c : Option Side) = none ∧
      ∀ side, (fibers.mode f).woken side = false ∧ f ∉ fibers.queue side := by
  obtain ⟨c, hm, hc, _⟩ := mode_of_offering hf
  have hqueue : (Wait.queue c : Option Side) = none := if_pos hc
  have hnot : ∀ side : Side, ¬ (fibers.mode f).linked side := by
    intro side
    rcases hm with hm | hm
    · rw [hm, Mode.linked, hqueue]
      simp
    · rw [hm, Mode.linked, hqueue]
      simp
  exact ⟨c, Mode.notify_of_waits hm, hqueue, fun side =>
    ⟨Mode.not_woken_of_waits hm side, hfibers.not_linked hnot side⟩⟩

/-! ### The refinement -/

/-- The calls make a rendezvous; the one that runs has not offered. -/
structure Refined (late : Prop) (s : State F α) : Prop where
  fibers : s.fibers.WellFormed
  running : ∀ f c, s.fibers.running = some (f, c) → c.offering = false
  run : Rendezvous.Run late s.rendezvous

variable {late : Prop}

theorem parties_none (h : s.fibers.running = none) : s.parties = waiting s.fibers := by
  rw [State.parties, h]

theorem parties_some (h : s.fibers.running = some (f, c)) :
    s.parties = Function.update (waiting s.fibers) f (some ⟨.calling, c.id, c.op.value⟩) := by
  rw [State.parties, h]

namespace Refined

theorem calling (h : s.fibers.running = some (f, c)) :
    s.rendezvous.parties f = some ⟨.calling, c.id, c.op.value⟩ := by
  show s.parties f = _
  rw [parties_some h, Function.update_self]

theorem waiting_running (h : Refined late s) (hrunning : s.fibers.running = some (f, c)) :
    waiting s.fibers f = none :=
  waiting_outside (h.fibers.running f c hrunning)

/-- Nothing happens that a rendezvous would notice. -/
theorem stutter (h : Refined late s) (hfibers : t.fibers.WellFormed)
    (hrunning : ∀ f c, t.fibers.running = some (f, c) → c.offering = false)
    (hsame : t.rendezvous = s.rendezvous) : Refined late t :=
  ⟨hfibers, hrunning, hsame ▸ h.run⟩

theorem step' (h : Refined late s) (hfibers : t.fibers.WellFormed)
    (hrunning : ∀ f c, t.fibers.running = some (f, c) → c.offering = false)
    (hs : Rendezvous.Step late s.rendezvous t.rendezvous) : Refined late t :=
  ⟨hfibers, hrunning, h.run.tail hs⟩

theorem rendezvous_ret (h : Refined late s) (hrunning : s.fibers.running = some (f, c)) {closed : Bool}
    (hwaiting : waiting fibers = waiting s.fibers) (answer : Answer α) :
    (State.ret { s with closed := closed, fibers := fibers } f c answer).rendezvous =
      s.rendezvous.leave f (Return.entry ⟨f, c.op, c.id, answer⟩) := by
  refine (Rendezvous.mk.injEq ..).mpr ⟨rfl, ?_, rfl, List.map_append⟩
  show waiting fibers = Function.update s.parties f none
  rw [parties_some hrunning, Function.update_idem, hwaiting, ← h.waiting_running hrunning,
    Function.update_eq_self]

theorem fail (h : Refined late s) (hrunning : s.fibers.running = some (f, c)) {closed : Bool}
    (hfibers : fibers.WellFormed) (hwaiting : waiting fibers = waiting s.fibers) {answer : Answer α}
    (hout : Return.outcome ⟨f, c.op, c.id, answer⟩ = .nothing) :
    Refined late (State.ret { s with closed := closed, fibers := fibers } f c answer) := by
  refine h.step' hfibers.finish (fun g d hg => absurd hg (by simp [State.ret, Fibers.finish])) ?_
  rw [h.rendezvous_ret hrunning hwaiting, Return.entry, hout]
  exact .fail (calling hrunning)

theorem park (h : Refined late s) (hrunning : s.fibers.running = some (f, c)) :
    Refined late (s.park f c) := by
  refine h.stutter (h.fibers.park (h.fibers.running f c hrunning) c)
    (fun g d hg => absurd hg (by simp [State.park, Fibers.park])) ?_
  refine (Rendezvous.mk.injEq ..).mpr ⟨rfl, ?_, rfl, rfl⟩
  show waiting (s.fibers.park f c) = s.parties
  rw [waiting_park, parties_some hrunning, party, h.running f c hrunning]
  rfl

theorem offer (h : Refined late s) (hrunning : s.fibers.running = some (f, c)) {value : α}
    (hvalue : c.op.value = some value) (hslot : s.slot = none) : Refined late (s.offer f c value) := by
  have hcalling := calling hrunning
  rw [hvalue] at hcalling
  have hfibers := h.fibers.wakeOne .consumers
  have hout := hfibers.running f c (by rw [Fibers.wakeOne_running]; exact hrunning)
  refine h.step' (hfibers.park hout _)
    (fun g d hg => absurd hg (by simp [State.offer, Fibers.park])) ?_
  have hsame : (s.offer f c value).rendezvous = s.rendezvous.offer f c.id value := by
    refine (Rendezvous.mk.injEq ..).mpr ⟨rfl, ?_, rfl, rfl⟩
    show waiting ((s.fibers.wakeOne .consumers).park f { c with offering := true }) =
      Function.update s.parties f (some ⟨.offering, c.id, some value⟩)
    rw [waiting_park, waiting_wakeOne h.fibers, parties_some hrunning, Function.update_idem, party,
      if_pos rfl, hvalue]
  rw [hsame]
  refine .offer hcalling ?_
  show s.slot.map _ = none
  rw [hslot, Option.map_none]

theorem owner (h : Refined late s) {slot : Slot F α} (hslot : s.slot = some slot) :
    s.rendezvous.parties slot.ctx = some ⟨.offering, slot.id, some slot.value⟩ := by
  refine h.run.inv.slot slot.offer ?_
  show s.slot.map _ = _
  rw [hslot, Option.map_some]

theorem owner_waiting (h : Refined late s) {slot : Slot F α} (hslot : s.slot = some slot) :
    waiting s.fibers slot.ctx = some ⟨.offering, slot.id, some slot.value⟩ := by
  have howner : s.parties slot.ctx = some ⟨.offering, slot.id, some slot.value⟩ := h.owner hslot
  cases hrunning : s.fibers.running with
  | none =>
    rw [parties_none hrunning] at howner
    exact howner
  | some p =>
    rw [parties_some hrunning, Rendezvous.update_some] at howner
    rcases howner with ⟨_, hp⟩ | ⟨_, hp⟩
    · exact absurd hp (by simp)
    · exact hp

theorem consume (h : Refined late s) (hrunning : s.fibers.running = some (f, c))
    (hvalue : c.op.value = none) {slot : Slot F α} (hslot : s.slot = some slot) :
    Refined late ((s.consume slot).ret f c (.value slot.value slot.id)) := by
  have hcalling := calling hrunning
  rw [hvalue] at hcalling
  have hfibers := h.fibers.wakeOne .producers
  have hwaiting := waiting_wakeOne h.fibers .producers
  have howner := h.owner_waiting hslot
  have howner' := howner
  rw [← hwaiting] at howner'
  obtain ⟨d, hd, _, hnot⟩ := notify_of_offering hfibers howner'
  refine h.step' (hfibers.setReady hd fun side => (hnot side).2).finish
    (fun g d hg => absurd hg (by simp [State.ret, Fibers.finish])) ?_
  have hne : f ≠ slot.ctx := by
    intro he
    rw [← he, h.waiting_running hrunning] at howner
    exact absurd howner (by simp)
  have hsame : ((s.consume slot).ret f c (.value slot.value slot.id)).rendezvous =
      s.rendezvous.take f c.id slot.offer := by
    refine (Rendezvous.mk.injEq ..).mpr ⟨rfl, ?_, rfl, ?_⟩
    · show waiting ((s.fibers.wakeOne .producers).setReady slot.ctx) =
        Function.update (Function.update s.parties slot.ctx (some ⟨.served, slot.id, some slot.value⟩))
          f none
      rw [waiting_setReady, party_notify howner', hwaiting, parties_some hrunning,
        Function.update_comm hne.symm, Function.update_idem, ← h.waiting_running hrunning,
        Function.update_eq_self]
    · show (s.log ++ [_]).map Return.entry = s.log.map Return.entry ++ [_]
      rw [List.map_append, List.map_singleton, Return.entry, Return.outcome, hvalue]
      rfl
  rw [hsame]
  refine .take hcalling ?_
  show s.slot.map _ = _
  rw [hslot, Option.map_some]

theorem pushLoop (h : Refined late s) (hrunning : s.fibers.running = some (f, c)) {value : α}
    (hvalue : c.op.value = some value) : Refined late (s.pushLoop f c value) := by
  rw [State.pushLoop]
  by_cases hclosed : s.closed = true
  · rw [if_pos hclosed]
    exact h.fail hrunning h.fibers rfl (outcome_closed f c.op c.id)
  · rw [if_neg hclosed]
    cases hslot : s.slot with
    | none => exact h.offer hrunning hvalue hslot
    | some slot =>
      simp only [if_neg hclosed, Option.isNone_some, Bool.false_eq_true, if_false]
      exact h.park hrunning

theorem popLoop (h : Refined late s) (hrunning : s.fibers.running = some (f, c))
    (hvalue : c.op.value = none) {atEnd : Answer α}
    (hatEnd : Return.outcome ⟨f, c.op, c.id, atEnd⟩ = .nothing) :
    Refined late (s.popLoop f c atEnd) := by
  rw [State.popLoop]
  cases hslot : s.slot with
  | some slot => exact h.consume hrunning hvalue hslot
  | none =>
    by_cases hclosed : s.closed = true
    · simp only [if_pos hclosed]
      exact h.fail hrunning h.fibers rfl hatEnd
    · simp only [if_neg hclosed, Option.isSome_none, Bool.false_eq_true, if_false]
      exact h.park hrunning

theorem close (h : Refined late s) (hrunning : s.fibers.running = some (f, c))
    (hvalue : c.op.value = none) : Refined late (s.close f c) := by
  have hfibers := h.fibers.wakeAll .producers
  refine h.fail hrunning (hfibers.wakeAll .consumers) ?_ ?_
  · rw [waiting_wakeAll hfibers, waiting_wakeAll h.fibers]
  · rw [Return.outcome, hvalue]

theorem iterate (h : Refined late s) (hrunning : s.fibers.running = some (f, c)) :
    Refined late (s.iterate f c) := by
  rw [State.iterate]
  cases hop : c.op with
  | push value => exact h.pushLoop hrunning (by rw [hop]; rfl)
  | pushWaitUntil value _ => exact h.pushLoop hrunning (by rw [hop]; rfl)
  | pop => exact h.popLoop hrunning (by rw [hop]; rfl) (by rw [hop]; rfl)
  | popWaitUntil _ => exact h.popLoop hrunning (by rw [hop]; rfl) (by rw [hop]; rfl)
  | valuePop => exact h.popLoop hrunning (by rw [hop]; rfl) (by rw [hop]; rfl)
  | close => exact h.close hrunning (by rw [hop]; rfl)

/-! ### A fiber goes on -/

theorem parties_of_mode (hrunning : s.fibers.running = none) (f : F) :
    s.rendezvous.parties f = party (s.fibers.mode f) := by
  show s.parties f = _
  rw [parties_none hrunning, waiting]

theorem rendezvous_leave (hrunning : s.fibers.running = none) {slot : Option (Slot F α)}
    (hwaiting : waiting fibers = Function.update (waiting s.fibers) f none) (answer : Answer α) :
    (State.ret { s with slot := slot, fibers := fibers } f c answer).rendezvous =
      { s.rendezvous with slot := slot.map Slot.offer }.leave f
        (Return.entry ⟨f, c.op, c.id, answer⟩) := by
  refine (Rendezvous.mk.injEq ..).mpr ⟨rfl, ?_, rfl, List.map_append⟩
  show waiting fibers = Function.update s.parties f none
  rw [parties_none hrunning, hwaiting]

theorem clearSlot_expired (h : Refined late s) (hrunning : s.fibers.running = none)
    (hmode : s.fibers.mode f = .expired c) (hc : c.offering = true) :
    s.clearSlot c = { s with slot := none } := by
  have hparty := parties_of_mode hrunning f
  rw [hmode, party, if_pos hc] at hparty
  obtain ⟨v, hv⟩ := h.run.inv.offering f c.id _ hparty
  obtain ⟨slot, hslot, heq⟩ := Option.map_eq_some_iff.mp hv
  rw [Slot.offer, Rendezvous.Offer.mk.injEq] at heq
  simp only [State.clearSlot, hslot, heq.2.2, if_true]

theorem clearSlot_notified (h : Refined late s) (hrunning : s.fibers.running = none)
    (hmode : s.fibers.mode f = .notified c) (hc : c.offering = true) : s.clearSlot c = s := by
  have hparty := parties_of_mode hrunning f
  rw [hmode, party, if_pos hc] at hparty
  cases hslot : s.slot with
  | none => simp only [State.clearSlot, hslot]
  | some slot =>
    have hne : slot.id ≠ c.id := by
      intro hid
      have howner := h.owner hslot
      have hf := h.run.inv.inj _ _ _ _ howner hparty hid
      rw [hf, hparty] at howner
      exact absurd howner (by simp)
    simp only [State.clearSlot, hslot, if_neg hne]

theorem giveUp (h : Refined late s) {slot : Option (Slot F α)} {answer : Answer α}
    (hs : Rendezvous.Step late s.rendezvous
      ({ s.rendezvous with slot := slot.map Slot.offer }.leave f
        (Return.entry ⟨f, c.op, c.id, answer⟩)))
    (hrunning : s.fibers.running = none) :
    Refined late (State.ret { s with slot := slot, fibers := (s.fibers.waitUnlink f).pick f }
      f c answer) := by
  refine h.step' h.fibers.giveUp.finish (fun g d hg => absurd hg (by simp [State.ret, Fibers.finish])) ?_
  have hwaiting : waiting ((s.fibers.waitUnlink f).pick f) = Function.update (waiting s.fibers) f none :=
    waiting_pick _ f
  rw [rendezvous_leave hrunning hwaiting]
  exact hs

theorem timeOut (h : Refined late s) (hrunning : s.fibers.running = none)
    (hmode : s.fibers.mode f = .expired c ∨ s.fibers.mode f = .notified c)
    (hok : s.fibers.mode f = .notified c → c.offering = true → late) : Refined late (s.timeOut f c) := by
  have hparty := parties_of_mode hrunning f
  have hentry : Return.entry ⟨f, c.op, c.id, .status .timeout⟩ = ⟨c.id, c.op.value, .nothing⟩ := by
    rw [Return.entry, outcome_timeout]
  rw [State.timeOut]
  by_cases hc : c.offering = true
  · rw [if_pos hc]
    rcases hmode with hmode | hmode
    · rw [h.clearSlot_expired hrunning hmode hc]
      rw [hmode, party, if_pos hc] at hparty
      refine h.giveUp ?_ hrunning
      rw [hentry]
      exact .withdraw hparty
    · rw [h.clearSlot_notified hrunning hmode hc]
      have hlate := hok hmode hc
      rw [hmode, party, if_pos hc] at hparty
      refine h.giveUp ?_ hrunning
      rw [hentry]
      exact .late hlate hparty
  · rw [if_neg hc]
    have hparty' : s.rendezvous.parties f = some ⟨.calling, c.id, c.op.value⟩ := by
      rcases hmode with hmode | hmode
      · rw [hparty, hmode, party, if_neg hc]
      · rw [hparty, hmode, party, if_neg hc]
    refine h.giveUp ?_ hrunning
    rw [hentry]
    exact .fail hparty'

theorem success (h : Refined late s) (hrunning : s.fibers.running = none)
    (hmode : s.fibers.mode f = .notified c) (hc : c.offering = true) :
    Refined late (State.ret { s with fibers := s.fibers.pick f } f c (.status .success)) := by
  have hparty := parties_of_mode hrunning f
  rw [hmode, party, if_pos hc] at hparty
  obtain ⟨v, hv⟩ := h.run.inv.served f c.id _ hparty
  have hnot : ∀ side, f ∉ s.fibers.queue side :=
    h.fibers.not_linked fun side => by rw [hmode]; exact id
  refine h.step' (h.fibers.resumed hnot).finish
    (fun g d hg => absurd hg (by simp [State.ret, Fibers.finish])) ?_
  rw [rendezvous_leave hrunning (waiting_pick _ f), Return.entry, Return.outcome, hv]
  rw [hv] at hparty
  exact .given hparty

theorem again (h : Refined late s) (hrunning : s.fibers.running = none)
    (hmode : s.fibers.mode f = .notified c) (hc : c.offering = false) :
    Refined late { s with fibers := (s.fibers.pick f).run f c } := by
  have hnot : ∀ side, f ∉ s.fibers.queue side :=
    h.fibers.not_linked fun side => by rw [hmode]; exact id
  refine h.stutter ((h.fibers.resumed hnot).run (Function.update_self f _ _) c) (fun g d hg => ?_) ?_
  · obtain ⟨-, rfl⟩ := Prod.mk.inj (Option.some.inj hg)
    exact hc
  · refine (Rendezvous.mk.injEq ..).mpr ⟨rfl, ?_, rfl, rfl⟩
    show Function.update (waiting (s.fibers.pick f)) f (some ⟨.calling, c.id, c.op.value⟩) = s.parties
    have hf : some ⟨.calling, c.id, c.op.value⟩ = waiting s.fibers f := by
      rw [waiting, hmode, party, hc]
      rfl
    rw [waiting_pick, Function.update_idem, parties_none hrunning, hf, Function.update_eq_self]

theorem resume (h : Refined late s) (hrunning : s.fibers.running = none)
    (hmode : s.fibers.mode f = .expired c ∨ s.fibers.mode f = .notified c)
    (hok : s.fibers.mode f = .notified c → c.offering = true → ¬ s.fibers.inTime c = true → late) :
    Refined late (s.resume f c) := by
  rw [State.resume]
  by_cases htime : s.fibers.inTime c = true
  · rw [if_pos htime]
    have hmode := hmode.resolve_left fun hm =>
      Fibers.not_inTime_of_overdue (h.fibers.expired f c hm) htime
    by_cases hc : c.offering = true
    · rw [if_pos hc]
      exact h.success hrunning hmode hc
    · rw [if_neg hc]
      exact h.again hrunning hmode ((Bool.not_eq_true _).mp hc)
  · rw [if_neg htime]
    exact h.timeOut hrunning hmode fun hm hc => hok hm hc htime

theorem call (h : Refined late s) (hrunning : s.fibers.running = none)
    (hmode : s.fibers.mode f = .outside) (op : Op α) : Refined late (s.call f op) := by
  have hparty := parties_of_mode hrunning f
  rw [hmode, party] at hparty
  refine h.step' (h.fibers.run hmode _) (fun g d hg => ?_) ?_
  · obtain ⟨-, rfl⟩ := Prod.mk.inj (Option.some.inj hg)
    rfl
  · have hsame : (s.call f op).rendezvous = s.rendezvous.call f op.value := by
      refine (Rendezvous.mk.injEq ..).mpr ⟨rfl, ?_, List.map_append, rfl⟩
      show Function.update (waiting s.fibers) f (some ⟨.calling, s.calls.length, op.value⟩) =
        Function.update s.parties f (some ⟨.calling, (s.calls.map Op.value).length, op.value⟩)
      rw [parties_none hrunning, List.length_map]
    rw [hsame]
    exact .call op.value hparty

end Refined

/-- A producer whose value has been popped goes on before its deadline. -/
def Prompt (s : State F α) : Action F α → Prop
  | .resume f =>
    match s.fibers.mode f with
    | .notified c => c.offering = true → s.fibers.inTime c = true
    | _ => True
  | _ => True

instance (s : State F α) (a : Action F α) : Decidable (Prompt s a) := by
  unfold Prompt
  split
  · split <;> infer_instance
  · infer_instance

theorem Refined.step (h : Refined late s) {a : Action F α} (hok : late ∨ Prompt s a)
    (hs : step s a = some t) : Refined late t := by
  cases stepped hs with
  | @call f op hrunning hmode => exact h.call hrunning hmode op
  | iterate hrunning => exact h.iterate hrunning
  | @expire f c hrunning hmode hover =>
    refine h.stutter (h.fibers.expire hmode hover) (fun g d hg => h.running g d hg) ?_
    refine (Rendezvous.mk.injEq ..).mpr ⟨rfl, ?_, rfl, rfl⟩
    rw [parties_none hrunning, ← waiting_expire hmode]
    exact parties_none (s := { s with fibers := s.fibers.expire f c }) hrunning
  | resume hrunning hmode =>
    refine h.resume hrunning hmode fun hm hc htime => ?_
    simp only [Prompt, hm] at hok
    exact hok.resolve_right fun hprompt => htime (hprompt hc)
  | tick n => exact h.stutter (h.fibers.tick n) (fun g d hg => h.running g d hg) rfl

theorem Refined.start (clock : Nat) : Refined late (machine clock : Machine (State F α) _).start :=
  ⟨.initial clock, fun _ _ hg => absurd hg (by simp [machine, Fibers.initial]), .refl⟩

theorem Refined.of_reachable {clock : Nat} (hs : (machine clock).ReachableWith Prompt s) :
    Refined False s :=
  hs.invariant (P := Refined False) (.start clock) fun _ _ _ hi hok hs => hi.step (.inr hok) hs

/-! ### Success, and its absence -/

/-- The call whose value has been popped. -/
def Return.source (r : Return F α) : Option Nat :=
  match r.answer with
  | .value _ i => some i
  | _ => none

/-- The calls whose values have been popped, once for each pop. -/
def State.received (s : State F α) : List Nat := s.log.filterMap Return.source

structure IsRendezvous (s : State F α) : Prop where
  /-- a call is told by its number -/
  ids : (s.log.map Return.id).Nodup
  calls : ∀ r ∈ s.log, ∃ op, s.calls[r.id]? = some op ∧ op.value = r.op.value
  success : ∀ r ∈ s.log, r.op.value.isSome = true →
    (r.answer = .status .success ↔ s.received.count r.id = 1)
  failure : ∀ r ∈ s.log, r.op.value.isSome = true →
    (r.answer = .status .timeout ∨ r.answer = .status .closed ↔ s.received.count r.id = 0)
  pop : ∀ r ∈ s.log, ∀ v i, r.answer = .value v i →
    (∃ op, s.calls[i]? = some op ∧ op.value = some v) ∧ s.received.count i = 1

theorem Refined.value_none (h : Refined late s) {r : Return F α} (hr : r ∈ s.log) {v : α} {i : Nat}
    (hanswer : r.answer = .value v i) : r.op.value = none := by
  by_contra hvalue
  obtain ⟨w, hw⟩ := Option.ne_none_iff_exists'.mp hvalue
  have hout := h.run.inv.outcome r.entry (List.mem_map_of_mem hr) (by rw [Return.entry, hw]; rfl)
  simp [Return.entry, Return.outcome, hw, hanswer] at hout

theorem Refined.received (h : Refined late s) : s.rendezvous.received = s.received := by
  show (s.log.map Return.entry).filterMap _ = s.log.filterMap _
  rw [List.filterMap_map]
  refine List.filterMap_congr fun r hr => ?_
  rw [Function.comp_apply, Rendezvous.Entry.source, Return.entry, Return.source, Return.outcome]
  cases hanswer : r.answer with
  | value v i => rw [h.value_none hr hanswer]
  | status status =>
    cases r.op.value with
    | none => rfl
    | some v => cases status <;> rfl
  | fiberError => cases r.op.value <;> rfl

theorem unbuffered_channel_rendezvous {clock : Nat} (hs : (machine clock).ReachableWith Prompt s) :
    IsRendezvous s := by
  have h := Refined.of_reachable hs
  have hinv := h.run.inv
  have hcalls : ∀ {i : Nat} {o : Option α}, (s.calls.map Op.value)[i]? = some o →
      ∃ op, s.calls[i]? = some op ∧ op.value = o := by
    intro i o hi
    rw [List.getElem?_map, Option.map_eq_some_iff] at hi
    exact hi
  refine ⟨?_, fun r hr => hcalls (hinv.ended r.entry (List.mem_map_of_mem hr)).1, fun r hr hvalue => ?_,
    fun r hr hvalue => ?_, fun r hr v i hanswer => ⟨?_, ?_⟩⟩
  · have hids : ((s.log.map Return.entry).map Rendezvous.Entry.id).Nodup := hinv.ids
    rw [List.map_map] at hids
    exact hids
  · rw [← Return.outcome_given hvalue, ← h.received]
    exact (hinv.given_iff (List.mem_map_of_mem hr) hvalue).1
  · rw [← Return.outcome_nothing hvalue, ← h.received]
    exact (hinv.given_iff (List.mem_map_of_mem hr) hvalue).2
  · refine hcalls (hinv.source r.entry (List.mem_map_of_mem hr) v i ?_)
    rw [Return.entry, Return.outcome, h.value_none hr hanswer, hanswer]
  · have hnodup : s.received.Nodup := h.received ▸ hinv.nodup
    refine List.count_eq_one_of_mem hnodup (List.mem_filterMap.mpr ⟨r, hr, ?_⟩)
    rw [Return.source, hanswer]

/-- A value is popped in time, one is not popped before its deadline, and one is refused behind
`close`. -/
theorem unbuffered_channel_rendezvous_three : ∃ s : State Nat Nat,
    s.log.map (fun r => (r.id, r.answer)) =
      [(1, .value 5 0), (0, .status .success), (2, .status .timeout), (3, .status .success),
        (4, .status .closed)] ∧ IsRendezvous s := by
  obtain ⟨s, hs, hlog⟩ : ∃ s : State Nat Nat,
      ((machine 0).guarded fun s a => decide (Prompt s a)).exec (machine 0).start
        [.call 0 (.pushWaitUntil 5 3), .iterate, .call 1 .pop, .iterate, .resume 0,
          .call 0 (.pushWaitUntil 6 3), .iterate, .tick 3, .expire 0, .resume 0, .call 1 .close, .iterate,
          .call 0 (.push 7), .iterate] = some s ∧
      s.log.map (fun r => (r.id, r.answer)) =
        [(1, .value 5 0), (0, .status .success), (2, .status .timeout), (3, .status .success),
          (4, .status .closed)] := ⟨_, rfl, rfl⟩
  exact ⟨s, hlog, unbuffered_channel_rendezvous
    ((Machine.reachableWith_of_exec hs).mono fun _ _ => of_decide_eq_true)⟩

/-- A producer goes on behind its deadline, when its value has been popped: it reports a time-out, and
delivers the value twice by trying again. -/
theorem unbuffered_channel_reports_timeout : ∃ s : State Nat Nat, (machine 0).Reachable s ∧
    s.log.map (fun r => (r.id, r.answer)) =
      [(1, .value 5 0), (0, .status .timeout), (3, .value 5 2), (2, .status .success)] ∧
    ¬ IsRendezvous s := by
  obtain ⟨s, hs, hlog, hreceived⟩ : ∃ s : State Nat Nat, (machine 0).exec (machine 0).start
      [.call 0 (.pushWaitUntil 5 3), .iterate, .call 1 .pop, .iterate, .tick 3, .resume 0,
        .call 0 (.pushWaitUntil 5 9), .iterate, .call 1 .pop, .iterate, .resume 0] = some s ∧
      s.log = [⟨1, .pop, 1, .value 5 0⟩, ⟨0, .pushWaitUntil 5 3, 0, .status .timeout⟩,
        ⟨1, .pop, 3, .value 5 2⟩, ⟨0, .pushWaitUntil 5 9, 2, .status .success⟩] ∧
      s.received = [0, 2] := ⟨_, rfl, rfl, rfl⟩
  refine ⟨s, Machine.reachable_of_exec hs, by rw [hlog]; rfl, fun h => ?_⟩
  have hcount := (h.failure ⟨0, .pushWaitUntil 5 3, 0, .status .timeout⟩ (by rw [hlog]; simp) rfl).mp
    (.inl rfl)
  rw [hreceived] at hcount
  exact absurd hcount (by decide)

end Dumbo.Fiber.UnbufferedChannel
