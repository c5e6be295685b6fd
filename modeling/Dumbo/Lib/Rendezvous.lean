import Mathlib.Data.List.Basic
import Mathlib.Data.List.Nodup
import Mathlib.Logic.Function.Basic
import Mathlib.Logic.Relation

/-!
# Rendezvous

Parties hand values over, one at a time, through a slot. A call either offers a value or asks for one;
the call that offers ends when its value has been taken, or when it gives up. Calls are numbered by
their place among all calls.
-/

namespace Transition

namespace Rendezvous

inductive Stage
  /-- neither has the value been offered, nor one been taken -/
  | calling
  | offering
  /-- the value has been taken -/
  | served
  deriving DecidableEq, Repr

/-- A call under way. -/
structure Party (α : Type*) where
  stage : Stage
  id : Nat
  offer : Option α

/-- The value in the slot, with the party and the number of the call that offers it. -/
structure Offer (F α : Type*) where
  value : α
  owner : F
  id : Nat

inductive Outcome (α : Type*)
  /-- the value has been taken -/
  | given
  /-- a value has been taken from a call -/
  | took (value : α) (source : Nat)
  /-- nothing has been handed over -/
  | nothing
  /-- nothing that a rendezvous does -/
  | other

/-- A call that has ended. -/
structure Entry (α : Type*) where
  id : Nat
  offer : Option α
  outcome : Outcome α

/-- The call that an ended call has taken its value from. -/
def Entry.source (e : Entry α) : Option Nat :=
  match e.outcome with
  | .took _ i => some i
  | _ => none

end Rendezvous

structure Rendezvous (F α : Type*) where
  slot : Option (Rendezvous.Offer F α)
  parties : F → Option (Rendezvous.Party α)
  /-- what the calls have offered -/
  calls : List (Option α)
  log : List (Rendezvous.Entry α)

namespace Rendezvous

variable {F α : Type*}

def empty : Rendezvous F α := ⟨none, fun _ => none, [], []⟩

/-- The calls whose values have been taken. -/
def received (r : Rendezvous F α) : List Nat := r.log.filterMap Entry.source

section Steps

variable [DecidableEq F]

def setParty (r : Rendezvous F α) (f : F) (p : Party α) : Rendezvous F α :=
  { r with parties := Function.update r.parties f (some p) }

/-- A call ends. -/
def leave (r : Rendezvous F α) (f : F) (e : Entry α) : Rendezvous F α :=
  { r with parties := Function.update r.parties f none, log := r.log ++ [e] }

def call (r : Rendezvous F α) (f : F) (offer : Option α) : Rendezvous F α :=
  { r.setParty f ⟨.calling, r.calls.length, offer⟩ with calls := r.calls ++ [offer] }

def offer (r : Rendezvous F α) (f : F) (id : Nat) (v : α) : Rendezvous F α :=
  { r.setParty f ⟨.offering, id, some v⟩ with slot := some ⟨v, f, id⟩ }

def take (r : Rendezvous F α) (f : F) (id : Nat) (o : Offer F α) : Rendezvous F α :=
  ({ r with slot := none }.setParty o.owner ⟨.served, o.id, some o.value⟩).leave f
    ⟨id, none, .took o.value o.id⟩

def withdraw (r : Rendezvous F α) (f : F) (id : Nat) (offer : Option α) : Rendezvous F α :=
  { r with slot := none }.leave f ⟨id, offer, .nothing⟩

/-- The steps of a rendezvous. With `late`, a call whose value has been taken may give up all the
same. -/
inductive Step (late : Prop) (r : Rendezvous F α) : Rendezvous F α → Prop
  | call {f} (offer) : r.parties f = none → Step late r (r.call f offer)
  | offer {f id v} : r.parties f = some ⟨.calling, id, some v⟩ → r.slot = none →
      Step late r (r.offer f id v)
  | take {f id o} : r.parties f = some ⟨.calling, id, none⟩ → r.slot = some o →
      Step late r (r.take f id o)
  | given {f id v} : r.parties f = some ⟨.served, id, some v⟩ →
      Step late r (r.leave f ⟨id, some v, .given⟩)
  | fail {f id offer} : r.parties f = some ⟨.calling, id, offer⟩ →
      Step late r (r.leave f ⟨id, offer, .nothing⟩)
  | withdraw {f id offer} : r.parties f = some ⟨.offering, id, offer⟩ →
      Step late r (r.withdraw f id offer)
  | late {f id offer} : late → r.parties f = some ⟨.served, id, offer⟩ →
      Step late r (r.leave f ⟨id, offer, .nothing⟩)

/-- The states that a rendezvous comes to. -/
abbrev Run (late : Prop) : Rendezvous F α → Prop := Relation.ReflTransGen (Step late) empty

end Steps

theorem received_concat (r : Rendezvous F α) (e : Entry α) :
    (r.log ++ [e]).filterMap Entry.source = r.received ++ e.source.toList := by
  rw [List.filterMap_append]
  cases he : e.source <;> simp [received, he]

/-! ### The invariant -/

/-- The slot holds the value of the one call that offers. A number is that of one call, under way or
ended; the calls whose values have been taken are those that have been served. -/
structure Inv (late : Prop) (r : Rendezvous F α) : Prop where
  slot : ∀ o, r.slot = some o → r.parties o.owner = some ⟨.offering, o.id, some o.value⟩
  offering : ∀ f id offer, r.parties f = some ⟨.offering, id, offer⟩ → ∃ v, r.slot = some ⟨v, f, id⟩
  served : ∀ f id offer, r.parties f = some ⟨.served, id, offer⟩ → ∃ v, offer = some v
  called : ∀ f p, r.parties f = some p → r.calls[p.id]? = some p.offer
  inj : ∀ f g p q, r.parties f = some p → r.parties g = some q → p.id = q.id → f = g
  ended : ∀ e ∈ r.log, r.calls[e.id]? = some e.offer ∧ ∀ f p, r.parties f = some p → p.id ≠ e.id
  ids : (r.log.map Entry.id).Nodup
  nodup : r.received.Nodup
  pending : ∀ f p, r.parties f = some p → (p.id ∈ r.received ↔ p.stage = .served)
  source : ∀ e ∈ r.log, ∀ v i, e.outcome = .took v i → r.calls[i]? = some (some v)
  outcome : ∀ e ∈ r.log, e.offer.isSome = true → e.outcome = .given ∧ e.id ∈ r.received ∨
    e.outcome = .nothing ∧ (e.id ∈ r.received → late)

variable {late : Prop} {r t : Rendezvous F α}

theorem Inv.empty : Inv late (empty : Rendezvous F α) := by
  refine ⟨fun o h => absurd h (by simp [Rendezvous.empty]), ?_, ?_, ?_, ?_, ?_, List.nodup_nil,
    List.nodup_nil, ?_, ?_, ?_⟩
  all_goals simp [Rendezvous.empty]

theorem Inv.mem_received (h : Inv late r) {i : Nat} (hi : i ∈ r.received) :
    ∃ v, r.calls[i]? = some (some v) := by
  obtain ⟨e, he, hsource⟩ := List.mem_filterMap.mp hi
  rw [Entry.source] at hsource
  split at hsource
  · rename_i v j hout
    rw [Option.some.injEq] at hsource
    exact ⟨v, hsource ▸ h.source e he v j hout⟩
  · exact absurd hsource (by simp)

variable [DecidableEq F]

theorem update_some {parties : F → Option (Party α)} {f g : F} {p q : Party α} :
    Function.update parties f (some p) g = some q ↔ g = f ∧ p = q ∨ g ≠ f ∧ parties g = some q := by
  rw [Function.update_apply]
  split_ifs with hg
  · simp [hg]
  · simp [hg]

theorem update_none {parties : F → Option (Party α)} {f g : F} {q : Party α} :
    Function.update parties f none g = some q ↔ g ≠ f ∧ parties g = some q := by
  rw [Function.update_apply]
  split_ifs with hg
  · simp [hg]
  · simp [hg]

theorem Inv.call (h : Inv late r) {f : F} (hf : r.parties f = none) (offer : Option α) :
    Inv late (r.call f offer) := by
  have hlt : ∀ {i : Nat} {a : Option α}, r.calls[i]? = some a → i < r.calls.length :=
    fun hi => (List.getElem?_eq_some_iff.mp hi).1
  have hkeep : ∀ {i : Nat} {a : Option α}, r.calls[i]? = some a → (r.calls ++ [offer])[i]? = some a :=
    fun hi => (List.getElem?_append_left (hlt hi)).trans hi
  refine ⟨fun o ho => ?_, fun g id o hg => ?_, fun g id o hg => ?_, fun g p hg => ?_,
    fun g g' p q hg hg' hid => ?_, fun e he => ⟨hkeep (h.ended e he).1, fun g p hg => ?_⟩,
    h.ids, h.nodup, fun g p hg => ?_, fun e he v i hout => hkeep (h.source e he v i hout),
    h.outcome⟩
  · have howner := h.slot o ho
    refine update_some.mpr (.inr ⟨fun he => ?_, howner⟩)
    rw [he, hf] at howner
    exact absurd howner (by simp)
  · rcases update_some.mp hg with ⟨_, hp⟩ | ⟨_, hp⟩
    · exact absurd hp (by simp)
    · exact h.offering g id o hp
  · rcases update_some.mp hg with ⟨_, hp⟩ | ⟨_, hp⟩
    · exact absurd hp (by simp)
    · exact h.served g id o hp
  · rcases update_some.mp hg with ⟨_, rfl⟩ | ⟨_, hp⟩
    · exact List.getElem?_concat_length
    · exact hkeep (h.called g p hp)
  · rcases update_some.mp hg with ⟨rfl, rfl⟩ | ⟨_, hp⟩
    · rcases update_some.mp hg' with ⟨rfl, _⟩ | ⟨_, hp'⟩
      · rfl
      · have hlt' := hlt (h.called g' q hp')
        simp only at hid
        omega
    · rcases update_some.mp hg' with ⟨rfl, rfl⟩ | ⟨_, hp'⟩
      · have hlt' := hlt (h.called g p hp)
        simp only at hid
        omega
      · exact h.inj g g' p q hp hp' hid
  · rcases update_some.mp hg with ⟨_, rfl⟩ | ⟨_, hp⟩
    · exact Nat.ne_of_gt (hlt (h.ended e he).1)
    · exact (h.ended e he).2 g p hp
  · rcases update_some.mp hg with ⟨_, rfl⟩ | ⟨_, hp⟩
    · refine ⟨fun hm => ?_, fun hs => absurd hs (by simp)⟩
      obtain ⟨v, hv⟩ := h.mem_received hm
      exact absurd (hlt hv) (Nat.lt_irrefl _)
    · exact h.pending g p hp

theorem Inv.offer (h : Inv late r) {f : F} {id : Nat} {v : α}
    (hf : r.parties f = some ⟨.calling, id, some v⟩) (hslot : r.slot = none) :
    Inv late (r.offer f id v) := by
  -- the numbers of the calls under way stay the same
  have hsame : ∀ {g : F} {p : Party α},
      Function.update r.parties f (some ⟨.offering, id, some v⟩) g = some p →
      ∃ q, r.parties g = some q ∧ q.id = p.id ∧ q.offer = p.offer ∧
        (q.stage = .served ↔ p.stage = .served) := by
    intro g p hg
    rcases update_some.mp hg with ⟨rfl, rfl⟩ | ⟨_, hp⟩
    · exact ⟨_, hf, rfl, rfl, by simp⟩
    · exact ⟨p, hp, rfl, rfl, Iff.rfl⟩
  refine ⟨fun o ho => ?_, fun g id' o hg => ?_, fun g id' o hg => ?_, fun g p hg => ?_,
    fun g g' p q hg hg' hid => ?_, fun e he => ⟨(h.ended e he).1, fun g p hg => ?_⟩,
    h.ids, h.nodup, fun g p hg => ?_, h.source, h.outcome⟩
  · obtain rfl := Option.some.inj ho
    exact Function.update_self _ _ _
  · rcases update_some.mp hg with ⟨rfl, hp⟩ | ⟨_, hp⟩
    · rw [Party.mk.injEq] at hp
      exact ⟨v, by rw [← hp.2.1]; rfl⟩
    · obtain ⟨w, hw⟩ := h.offering g id' o hp
      exact absurd (hslot.symm.trans hw) (by simp)
  · rcases update_some.mp hg with ⟨_, hp⟩ | ⟨_, hp⟩
    · exact absurd hp (by simp)
    · exact h.served g id' o hp
  · obtain ⟨q, hq, hid, hoffer, _⟩ := hsame hg
    rw [← hid, ← hoffer]
    exact h.called g q hq
  · obtain ⟨p', hp', hpid, _⟩ := hsame hg
    obtain ⟨q', hq', hqid, _⟩ := hsame hg'
    exact h.inj g g' p' q' hp' hq' (by rw [hpid, hqid, hid])
  · obtain ⟨q, hq, hid, _⟩ := hsame hg
    rw [← hid]
    exact (h.ended e he).2 g q hq
  · obtain ⟨q, hq, hid, _, hserved⟩ := hsame hg
    rw [← hid, ← hserved]
    exact h.pending g q hq

omit [DecidableEq F] in
theorem Inv.ids_concat (h : Inv late r) {f : F} {p : Party α} (hf : r.parties f = some p) :
    (r.log.map Entry.id ++ [p.id]).Nodup := by
  refine h.ids.append (List.nodup_singleton _) fun i hi hi' => ?_
  obtain ⟨e, he, rfl⟩ := List.mem_map.mp hi
  rw [List.mem_singleton] at hi'
  exact (h.ended e he).2 f p hf hi'.symm

/-- A call ends without having taken a value; the slot loses the value it may have offered. -/
theorem Inv.leave (h : Inv late r) {f : F} {p : Party α} {slot : Option (Offer F α)}
    {outcome : Outcome α} (hf : r.parties f = some p)
    (hslot : ∀ o, slot = some o ↔ r.slot = some o ∧ o.owner ≠ f)
    (hsource : (⟨p.id, p.offer, outcome⟩ : Entry α).source = none)
    (hout : p.offer.isSome = true → outcome = .given ∧ p.stage = .served ∨
      outcome = .nothing ∧ (p.stage = .served → late)) :
    Inv late ({ r with slot := slot }.leave f ⟨p.id, p.offer, outcome⟩) := by
  have hreceived : (({ r with slot := slot } : Rendezvous F α).leave f
      ⟨p.id, p.offer, outcome⟩).received = r.received := by
    show (r.log ++ [_]).filterMap Entry.source = _
    rw [received_concat, hsource]
    exact List.append_nil _
  have hold : ∀ {g : F} {q : Party α}, Function.update r.parties f none g = some q →
      g ≠ f ∧ r.parties g = some q := fun hg => update_none.mp hg
  refine ⟨fun o ho => ?_, fun g id o hg => ?_, fun g id o hg => h.served g id o (hold hg).2,
    fun g q hg => h.called g q (hold hg).2,
    fun g g' q q' hg hg' => h.inj g g' q q' (hold hg).2 (hold hg').2, fun e he => ?_, ?_, ?_,
    fun g q hg => ?_, fun e he v i htook => ?_, fun e he hoffer => ?_⟩
  · obtain ⟨ho, hne⟩ := (hslot o).mp ho
    exact update_none.mpr ⟨hne, h.slot o ho⟩
  · obtain ⟨hne, hg⟩ := hold hg
    obtain ⟨v, hv⟩ := h.offering g id o hg
    exact ⟨v, (hslot _).mpr ⟨hv, hne⟩⟩
  · rcases List.mem_append.mp he with he | he
    · exact ⟨(h.ended e he).1, fun g q hg => (h.ended e he).2 g q (hold hg).2⟩
    · rw [List.mem_singleton] at he
      subst he
      refine ⟨h.called f p hf, fun g q hg hid => ?_⟩
      obtain ⟨hne, hg⟩ := hold hg
      exact hne (h.inj g f q p hg hf hid)
  · show ((r.log ++ [_]).map Entry.id).Nodup
    rw [List.map_append]
    exact h.ids_concat hf
  · rw [hreceived]
    exact h.nodup
  · rw [hreceived]
    exact h.pending g q (hold hg).2
  · rcases List.mem_append.mp he with he | he
    · exact h.source e he v i htook
    · rw [List.mem_singleton] at he
      subst he
      rw [Entry.source] at hsource
      simp only at htook
      simp only [htook] at hsource
      exact absurd hsource (by simp)
  · rw [hreceived]
    rcases List.mem_append.mp he with he | he
    · exact h.outcome e he hoffer
    · rw [List.mem_singleton] at he
      subst he
      rw [h.pending f p hf]
      exact hout hoffer

omit [DecidableEq F] in
theorem Inv.owner_ne (h : Inv late r) {f : F} {p : Party α} (hf : r.parties f = some p)
    (hp : p.stage ≠ .offering) {o : Offer F α} (ho : r.slot = some o) : o.owner ≠ f := by
  rintro rfl
  rw [h.slot o ho, Option.some.injEq] at hf
  exact hp (hf ▸ rfl)

omit [DecidableEq F] in
theorem Inv.keep (h : Inv late r) {f : F} {p : Party α} (hf : r.parties f = some p)
    (hp : p.stage ≠ .offering) (o : Offer F α) : r.slot = some o ↔ r.slot = some o ∧ o.owner ≠ f :=
  ⟨fun ho => ⟨ho, h.owner_ne hf hp ho⟩, And.left⟩

theorem Inv.withdraw (h : Inv late r) {f : F} {id : Nat} {offer : Option α}
    (hf : r.parties f = some ⟨.offering, id, offer⟩) : Inv late (r.withdraw f id offer) := by
  refine h.leave hf (fun o => ?_) rfl fun _ => .inr ⟨rfl, fun hs => absurd hs (by simp)⟩
  obtain ⟨v, hv⟩ := h.offering f id offer hf
  rw [hv]
  refine ⟨fun ho => absurd ho (by simp), fun ⟨ho, hne⟩ => ?_⟩
  rw [Option.some.injEq] at ho
  exact absurd (ho ▸ rfl) hne

theorem Inv.take (h : Inv late r) {f : F} {id : Nat} {o : Offer F α}
    (hf : r.parties f = some ⟨.calling, id, none⟩) (ho : r.slot = some o) :
    Inv late (r.take f id o) := by
  have howner := h.slot o ho
  have hreceived : (r.take f id o).received = r.received ++ [o.id] := received_concat r _
  have hfresh : o.id ∉ r.received := by
    rw [h.pending o.owner _ howner]
    simp
  have hold : ∀ {g : F} {p : Party α}, (r.take f id o).parties g = some p →
      g ≠ f ∧ (g = o.owner ∧ ⟨.served, o.id, some o.value⟩ = p ∨ g ≠ o.owner ∧ r.parties g = some p) := by
    intro g p hg
    obtain ⟨hne, hg⟩ := update_none.mp hg
    exact ⟨hne, update_some.mp hg⟩
  have hsame : ∀ {g : F} {p : Party α}, (r.take f id o).parties g = some p →
      ∃ q, r.parties g = some q ∧ q.id = p.id ∧ q.offer = p.offer ∧
        (p.stage = .served ↔ q.stage = .served ∨ p.id = o.id) := by
    intro g p hg
    rcases (hold hg).2 with ⟨rfl, rfl⟩ | ⟨hne, hp⟩
    · exact ⟨_, howner, rfl, rfl, by simp⟩
    · refine ⟨p, hp, rfl, rfl, ?_⟩
      rw [or_iff_left fun hid => hne (h.inj g o.owner p _ hp howner hid)]
  refine ⟨fun o' ho' => absurd (show none = some o' from ho') (by simp), fun g id' a hg => ?_,
    fun g id' a hg => ?_, fun g p hg => ?_, fun g g' p p' hg hg' hid => ?_, fun e he => ?_, ?_, ?_,
    fun g p hg => ?_, fun e he v i htook => ?_, fun e he hoffer => ?_⟩
  · rcases (hold hg).2 with ⟨_, hp⟩ | ⟨hne, hp⟩
    · exact absurd hp (by simp)
    · obtain ⟨v, hv⟩ := h.offering g id' a hp
      rw [ho, Option.some.injEq] at hv
      exact absurd (hv ▸ rfl) hne
  · rcases (hold hg).2 with ⟨_, hp⟩ | ⟨_, hp⟩
    · rw [Party.mk.injEq] at hp
      exact ⟨o.value, hp.2.2.symm⟩
    · exact h.served g id' a hp
  · obtain ⟨q, hq, hid, hoffer, _⟩ := hsame hg
    rw [← hid, ← hoffer]
    exact h.called g q hq
  · obtain ⟨q, hq, hqid, _⟩ := hsame hg
    obtain ⟨q', hq', hqid', _⟩ := hsame hg'
    exact h.inj g g' q q' hq hq' (by rw [hqid, hqid', hid])
  · rcases List.mem_append.mp he with he | he
    · refine ⟨(h.ended e he).1, fun g p hg => ?_⟩
      obtain ⟨q, hq, hid, _⟩ := hsame hg
      rw [← hid]
      exact (h.ended e he).2 g q hq
    · rw [List.mem_singleton] at he
      subst he
      refine ⟨h.called f _ hf, fun g p hg hid => ?_⟩
      obtain ⟨q, hq, hqid, _⟩ := hsame hg
      exact (hold hg).1 (h.inj g f q _ hq hf (hqid.trans hid))
  · show ((r.log ++ [_]).map Entry.id).Nodup
    rw [List.map_append]
    exact h.ids_concat hf
  · rw [hreceived]
    refine h.nodup.append (List.nodup_singleton _) fun i hi hi' => ?_
    rw [List.mem_singleton] at hi'
    exact hfresh (hi' ▸ hi)
  · obtain ⟨q, hq, hid, _, hserved⟩ := hsame hg
    have hpending := h.pending g q hq
    rw [hid] at hpending
    rw [hreceived, List.mem_append, List.mem_singleton, hpending, hserved]
  · rcases List.mem_append.mp he with he | he
    · exact h.source e he v i htook
    · rw [List.mem_singleton] at he
      subst he
      rw [Outcome.took.injEq] at htook
      obtain ⟨rfl, rfl⟩ := htook
      exact h.called o.owner _ howner
  · rcases List.mem_append.mp he with he | he
    · have hne : e.id ≠ o.id := fun hid => (h.ended e he).2 o.owner _ howner hid.symm
      rw [hreceived, List.mem_append, List.mem_singleton, or_iff_left hne]
      exact h.outcome e he hoffer
    · rw [List.mem_singleton] at he
      subst he
      exact absurd hoffer (by simp)

theorem Inv.step (h : Inv late r) (hs : Step late r t) : Inv late t := by
  cases hs with
  | call offer hf => exact h.call hf offer
  | offer hf hslot => exact h.offer hf hslot
  | take hf ho => exact h.take hf ho
  | given hf =>
    exact h.leave hf (h.keep hf (by simp)) rfl fun _ => .inl ⟨rfl, rfl⟩
  | fail hf =>
    exact h.leave hf (h.keep hf (by simp)) rfl fun _ => .inr ⟨rfl, fun hs => absurd hs (by simp)⟩
  | withdraw hf => exact h.withdraw hf
  | late hlate hf => exact h.leave hf (h.keep hf (by simp)) rfl fun _ => .inr ⟨rfl, fun _ => hlate⟩

theorem Run.inv (h : Run late r) : Inv late r := by
  induction h with
  | refl => exact .empty
  | tail _ hs ih => exact ih.step hs

omit [DecidableEq F] in
/-- Unless calls give up late, a call that offers reports success if and only if its value has been
taken. -/
theorem Inv.given_iff (h : Inv False r) {e : Entry α} (he : e ∈ r.log) (hoffer : e.offer.isSome = true) :
    (e.outcome = .given ↔ r.received.count e.id = 1) ∧
      (e.outcome = .nothing ↔ r.received.count e.id = 0) := by
  rw [List.count_eq_zero]
  rcases h.outcome e he hoffer with ⟨hout, hm⟩ | ⟨hout, hm⟩
  · simp [hout, hm, List.count_eq_one_of_mem h.nodup hm]
  · have hm : e.id ∉ r.received := hm
    simp [hout, hm, List.count_eq_zero_of_not_mem hm]

end Rendezvous

end Transition
