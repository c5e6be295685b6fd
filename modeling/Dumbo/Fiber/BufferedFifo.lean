import Dumbo.Fiber.BufferedChannel
import Dumbo.Lib.Fifo
import Mathlib.Data.Nat.ModEq
import Mathlib.Algebra.Ring.Divisibility.Basic

/-!
# The buffered channel is a queue

The ring holds a list of values from the consumer's index on. Both indices and the cycles may go round
the range of `size_t`.
-/

namespace Dumbo.Fiber.BufferedChannel

open Transition

variable {α : Type*} {k first : Nat} {l : List α} {v : α} {r : Ring α}

theorem sizeMax_eq : sizeMax = 2 ^ 64 := rfl

theorem difference_mod {a b : Nat} (hlow : b ≤ a + 9223372036854775808)
    (hhigh : a < b + 9223372036854775808) :
    difference (a % sizeMax) (b % sizeMax) = (a : Int) - b := by
  rw [difference, sizeMax, Int.bmod_eq_emod]
  push_cast
  split_ifs <;> omega

theorem Ring.position_mod {r : Ring α} {k : Nat} (hcapacity : r.capacity = 2 ^ k) (hk : k ≤ 63) (n : Nat) :
    r.position (n % sizeMax) = n % 2 ^ k := by
  have hdvd : 2 ^ k ∣ sizeMax := by
    rw [sizeMax_eq]
    exact pow_dvd_pow 2 (by omega)
  rw [Ring.position, hcapacity, Nat.and_two_pow_sub_one_eq_mod, Nat.mod_mod_of_dvd n hdvd]

/-- The slots of a ring of `2 ^ k` slots that holds a list, the first value under the index `first`. -/
structure Ring.Holds (r : Ring α) (k first : Nat) (l : List α) : Prop where
  capacity : r.capacity = 2 ^ k
  producerIdx : r.producerIdx = (first + l.length) % sizeMax
  consumerIdx : r.consumerIdx = first % sizeMax
  length_le : l.length ≤ 2 ^ k
  filled : ∀ i < l.length, r.slots ((first + i) % 2 ^ k) = ⟨(first + i + 1) % sizeMax, l[i]?⟩
  free : ∀ i, l.length ≤ i → i < 2 ^ k → (r.slots ((first + i) % 2 ^ k)).cycle = (first + i) % sizeMax

namespace Ring.Holds

theorem position (h : r.Holds k first l) (hk : k ≤ 63) (n : Nat) :
    r.position (n % sizeMax) = n % 2 ^ k :=
  Ring.position_mod h.capacity hk n

theorem position_inj {i j m : Nat} (hi : i < m) (hj : j < m) (h : (first + i) % m = (first + j) % m) :
    i = j := by
  have hmod : i ≡ j [MOD m] := Nat.ModEq.add_left_cancel' first h
  rw [Nat.ModEq, Nat.mod_eq_of_lt hi, Nat.mod_eq_of_lt hj] at hmod
  exact hmod

theorem create (hk : k ≤ 63) :
    ∃ r : Ring α, Ring.create (2 ^ k) = some r ∧ r.Holds k 0 [] := by
  have hpos : 0 < 2 ^ k := Nat.pow_pos (by decide)
  have hlt : 2 ^ k < sizeMax := by
    rw [sizeMax_eq]
    exact Nat.pow_lt_pow_right (by decide) (by omega)
  refine ⟨⟨0, 0, fun i => ⟨i, none⟩, 2 ^ k⟩, ?_, rfl, rfl, rfl, Nat.zero_le _, ?_, ?_⟩
  · rw [Ring.create, if_neg]
    rw [Nat.and_two_pow_sub_one_eq_mod, Nat.mod_self]
    omega
  · exact fun i hi => absurd hi (Nat.not_lt_zero i)
  · intro i _ hi
    rw [Nat.zero_add, Nat.mod_eq_of_lt hi, Nat.mod_eq_of_lt (Nat.lt_trans hi hlt)]

theorem two_pow_le (hk : k ≤ 63) : 2 ^ k ≤ 9223372036854775808 := by
  calc 2 ^ k ≤ 2 ^ 63 := Nat.pow_le_pow_right (by decide) hk
    _ = 9223372036854775808 := rfl

theorem producer_difference (h : r.Holds k first l) (hk : k ≤ 63) :
    difference (r.slots (r.position r.producerIdx)).cycle r.producerIdx =
      if l.length < 2 ^ k then 0 else (1 : Int) - (2 ^ k : Nat) := by
  have hle := two_pow_le hk
  have hlen := h.length_le
  rw [h.producerIdx, h.position hk]
  by_cases hlt : l.length < 2 ^ k
  · rw [if_pos hlt, h.free _ (Nat.le_refl _) hlt,
      difference_mod (a := first + l.length) (b := first + l.length) (by omega) (by omega)]
    omega
  · have hfull : l.length = 2 ^ k := by omega
    have hpos : 0 < l.length := by
      rw [hfull]
      exact Nat.pow_pos (by decide)
    have hslot : (r.slots ((first + l.length) % 2 ^ k)).cycle = (first + 1) % sizeMax := by
      rw [hfull, Nat.add_mod_right]
      have hfilled := h.filled 0 hpos
      rw [Nat.add_zero] at hfilled
      rw [hfilled]
    rw [if_neg hlt, hslot, difference_mod (a := first + 1) (b := first + l.length) (by omega)
      (by omega), hfull]
    push_cast
    omega

theorem consumer_difference (h : r.Holds k first l) (hk : k ≤ 63) :
    difference (r.slots (r.position r.consumerIdx)).cycle ((r.consumerIdx + 1) % sizeMax) =
      if l = [] then -1 else 0 := by
  have hidx : (r.consumerIdx + 1) % sizeMax = (first + 1) % sizeMax := by
    rw [h.consumerIdx, Nat.mod_add_mod]
  rw [hidx, h.consumerIdx, h.position hk]
  cases l with
  | nil =>
    have hfree := h.free 0 (Nat.le_refl 0) (Nat.pow_pos (by decide))
    rw [Nat.add_zero] at hfree
    rw [if_pos rfl, hfree, difference_mod (a := first) (b := first + 1) (by omega) (by omega)]
    omega
  | cons v l =>
    have hfilled := h.filled 0 (Nat.succ_pos _)
    rw [Nat.add_zero] at hfilled
    rw [if_neg (by simp), hfilled, difference_mod (a := first + 1) (b := first + 1) (by omega)
      (by omega)]
    omega

theorem isFull_iff (h : r.Holds k first l) (hk1 : 1 ≤ k) (hk : k ≤ 63) :
    r.isFull = true ↔ l.length = 2 ^ k := by
  have htwo : 2 ^ 1 ≤ 2 ^ k := Nat.pow_le_pow_right (by decide) hk1
  have hlen := h.length_le
  rw [Ring.isFull, h.producer_difference hk, decide_eq_true_eq]
  split_ifs <;> omega

theorem isEmpty_iff (h : r.Holds k first l) (hk : k ≤ 63) : r.isEmpty = true ↔ l = [] := by
  rw [Ring.isEmpty, h.consumer_difference hk, decide_eq_true_eq]
  split_ifs with hl <;> simp [hl]

theorem tryPush_full (h : r.Holds k first l) (hk1 : 1 ≤ k) (hk : k ≤ 63) (hfull : l.length = 2 ^ k) :
    r.tryPush v = .full := by
  have htwo : 2 ^ 1 ≤ 2 ^ k := Nat.pow_le_pow_right (by decide) hk1
  have hdiff := h.producer_difference hk
  rw [if_neg (by omega)] at hdiff
  simp only [Ring.tryPush, hdiff]
  rw [if_neg (by omega), if_pos (by omega)]

theorem tryPush_lt (h : r.Holds k first l) (hk : k ≤ 63) (hlt : l.length < 2 ^ k) (v : α) :
    ∃ ring, r.tryPush v = .success ring ∧ ring.Holds k first (l ++ [v]) := by
  have hdiff := h.producer_difference hk
  rw [if_pos hlt] at hdiff
  have hposition : r.position r.producerIdx = (first + l.length) % 2 ^ k := by
    rw [h.producerIdx, h.position hk]
  have hidx : (r.producerIdx + 1) % sizeMax = (first + l.length + 1) % sizeMax := by
    rw [h.producerIdx, Nat.mod_add_mod]
  rw [hposition] at hdiff
  simp only [Ring.tryPush, hposition, hdiff, if_true, hidx]
  have hother : ∀ i, i < 2 ^ k → i ≠ l.length →
      Function.update r.slots ((first + l.length) % 2 ^ k) ⟨(first + l.length + 1) % sizeMax, some v⟩
        ((first + i) % 2 ^ k) = r.slots ((first + i) % 2 ^ k) := by
    intro i hi hne
    exact Function.update_of_ne (fun he => hne (position_inj hi hlt he)) _ _
  refine ⟨_, rfl, h.capacity, ?_, h.consumerIdx, ?_, fun i hi => ?_, fun i hle hi => ?_⟩
  · rw [List.length_append, List.length_singleton]
    rfl
  · rw [List.length_append]
    exact hlt
  · rw [List.length_append, List.length_singleton] at hi
    by_cases he : i = l.length
    · subst he
      simp [Ring.setSlot]
    · have hi' : i < l.length := by omega
      rw [List.getElem?_append_left hi', ← h.filled i hi']
      exact hother i (Nat.lt_trans hi' hlt) he
  · rw [List.length_append, List.length_singleton] at hle
    rw [← h.free i (by omega) hi]
    exact congrArg Slot.cycle (hother i hi (by omega))

theorem tryPop_nil (h : r.Holds k first []) (hk : k ≤ 63) : r.tryPop = .empty := by
  have hdiff := h.consumer_difference hk
  rw [if_pos rfl] at hdiff
  simp only [Ring.tryPop, hdiff]
  rfl

theorem tryPop_cons (h : r.Holds k first (v :: l)) (hk : k ≤ 63) :
    ∃ ring, r.tryPop = .success (some v) ring ∧ ring.Holds k (first + 1) l := by
  have hdiff := h.consumer_difference hk
  rw [if_neg (by simp)] at hdiff
  have hlen := h.length_le
  rw [List.length_cons] at hlen
  have hposition : r.position r.consumerIdx = first % 2 ^ k := by
    rw [h.consumerIdx, h.position hk]
  have hidx : (r.consumerIdx + 1) % sizeMax = (first + 1) % sizeMax := by
    rw [h.consumerIdx, Nat.mod_add_mod]
  have hcycle : (r.consumerIdx + r.capacity) % sizeMax = (first + 2 ^ k) % sizeMax := by
    rw [h.consumerIdx, Nat.mod_add_mod, h.capacity]
  have hfirst : r.slots (first % 2 ^ k) = ⟨(first + 1) % sizeMax, some v⟩ := by
    have hfilled := h.filled 0 (Nat.succ_pos _)
    rwa [Nat.add_zero, List.getElem?_cons_zero] at hfilled
  have hother : ∀ (slot : Slot α) i, i + 1 < 2 ^ k →
      Function.update r.slots (first % 2 ^ k) slot ((first + (i + 1)) % 2 ^ k) =
        r.slots ((first + (i + 1)) % 2 ^ k) := by
    intro slot i hi
    refine Function.update_of_ne (fun he => ?_) _ _
    have hzero := position_inj hi (Nat.zero_lt_of_lt hi) (he.trans (by rw [Nat.add_zero]))
    omega
  rw [hposition, hidx, hfirst] at hdiff
  simp only [Ring.tryPop, hposition, hidx, hcycle, hfirst, hdiff, if_true]
  refine ⟨_, rfl, h.capacity, ?_, rfl, Nat.le_of_succ_le hlen, fun i hi => ?_, fun i hle hi => ?_⟩
  · show r.producerIdx = _
    rw [h.producerIdx, List.length_cons, Nat.add_assoc, Nat.add_comm 1]
  · have hfilled := h.filled (i + 1) (Nat.succ_lt_succ hi)
    rw [List.getElem?_cons_succ] at hfilled
    rw [Nat.add_assoc, Nat.add_comm 1, ← hfilled]
    exact hother _ i (by omega)
  · rw [Nat.add_assoc, Nat.add_comm 1]
    by_cases hlast : i + 1 = 2 ^ k
    · rw [hlast, Nat.add_mod_right]
      simp [Ring.setSlot]
    · have hfree := h.free (i + 1) (by simpa using hle) (by omega)
      rw [← hfree]
      exact congrArg Slot.cycle (hother _ i (by omega))

end Ring.Holds

/-- The number of values in the ring. -/
def Ring.size (r : Ring α) : Nat := (r.producerIdx + sizeMax - r.consumerIdx) % sizeMax

/-- The values in the ring, from the consumer's index on. -/
def Ring.contents (r : Ring α) : List (Option α) :=
  (List.range r.size).map fun i => (r.slots (r.position ((r.consumerIdx + i) % sizeMax))).storage

theorem Ring.Holds.size (h : r.Holds k first l) (hk : k ≤ 63) : r.size = l.length := by
  have hle := two_pow_le hk
  have hlen := h.length_le
  rw [Ring.size, h.producerIdx, h.consumerIdx, sizeMax]
  omega

theorem Ring.Holds.contents (h : r.Holds k first l) (hk : k ≤ 63) : r.contents = l.map some := by
  rw [Ring.contents, h.size hk]
  apply List.ext_getElem
  · simp
  · intro i hi _
    rw [List.length_map, List.length_range] at hi
    have hidx : (r.consumerIdx + i) % sizeMax = (first + i) % sizeMax := by
      rw [h.consumerIdx, Nat.mod_add_mod]
    rw [List.getElem_map, List.getElem_map, List.getElem_range, hidx, h.position hk, h.filled i hi]
    exact List.getElem?_eq_getElem hi

/-! ### The calls as events of a queue -/

variable {F : Type*}

/-- What a call has done to the queue, by its answer. -/
def Return.event (r : Return F α) : Fifo.Event α :=
  match r.op, r.answer with
  | .push v, .status .success | .pushWaitUntil v _, .status .success
  | .tryPush v, .status .success => .push v
  | .push _, .status .closed | .pushWaitUntil _ _, .status .closed
  | .tryPush _, .status .closed => .pushClosed
  | .tryPush _, .status .full => .full
  | .pop, .value (some v) | .popWaitUntil _, .value (some v) | .valuePop, .value (some v)
  | .tryPop, .value (some v) => .pop v
  | .pop, .status .closed | .popWaitUntil _, .status .closed | .valuePop, .fiberError
  | .tryPop, .status .closed => .popClosed
  | .tryPop, .status .empty => .empty
  | .pushWaitUntil _ _, .status .timeout | .popWaitUntil _, .status .timeout => .timeout
  | .close, .status .success => .close
  | _, _ => .other

/-- The ring holds what the queue does. -/
def Refines (k : Nat) (ring : Ring α) (closed : Bool) (log : List (Return F α)) : Prop :=
  ∃ first l, ring.Holds k first l ∧ Fifo.Run (2 ^ k) (log.map Return.event) ⟨l, closed⟩

abbrev State.Refined (k : Nat) (s : State F α) : Prop := Refines k s.ring s.closed s.log

theorem run_concat {capacity : Nat} {log : List (Return F α)} {q q' : Fifo α} {e : Return F α}
    (h : Fifo.Run capacity (log.map Return.event) q) (hs : Fifo.Step capacity q e.event q') :
    Fifo.Run capacity ((log ++ [e]).map Return.event) q' := by
  rw [List.map_append]
  exact h.snoc hs

variable [DecidableEq F] {s t : State F α} {f : F} {op : Op α}

theorem State.Refined.pushLoop (hk1 : 1 ≤ k) (hk : k ≤ 63) (h : s.Refined k) {value : α}
    (hsuccess : Return.event ⟨f, op, .status .success⟩ = .push value)
    (hclosed : Return.event ⟨f, op, .status .closed⟩ = .pushClosed) :
    (s.pushLoop f op value).Refined k := by
  obtain ⟨first, l, hring, hrun⟩ := h
  rw [State.pushLoop]
  by_cases hc : s.closed = true
  · rw [if_pos hc]
    refine ⟨first, l, hring, run_concat hrun ?_⟩
    rw [hclosed]
    exact hc ▸ .pushClosed
  · rw [if_neg hc, if_neg hc]
    by_cases hlt : l.length < 2 ^ k
    · obtain ⟨ring, hpush, hring'⟩ := hring.tryPush_lt hk hlt value
      rw [hpush]
      refine ⟨first, l ++ [value], hring', run_concat hrun ?_⟩
      rw [hsuccess]
      show Fifo.Step _ ⟨l, s.closed⟩ _ ⟨l ++ [value], s.closed⟩
      rw [Bool.eq_false_of_not_eq_true hc]
      exact .push hlt
    · have hfull : l.length = 2 ^ k := Nat.le_antisymm hring.length_le (Nat.le_of_not_lt hlt)
      rw [hring.tryPush_full hk1 hk hfull]
      split_ifs
      · exact ⟨first, l, hring, hrun⟩
      · exact ⟨first, l, hring, hrun⟩

omit [DecidableEq F] in
theorem State.Refined.tryPush (hk1 : 1 ≤ k) (hk : k ≤ 63) (h : s.Refined k) (value : α) :
    (s.tryPush f value).Refined k := by
  obtain ⟨first, l, hring, hrun⟩ := h
  rw [State.tryPush]
  by_cases hc : s.closed = true
  · rw [if_pos hc]
    exact ⟨first, l, hring, run_concat hrun (hc ▸ .pushClosed)⟩
  · rw [if_neg hc]
    have hopen := Bool.eq_false_of_not_eq_true hc
    by_cases hlt : l.length < 2 ^ k
    · obtain ⟨ring, hpush, hring'⟩ := hring.tryPush_lt hk hlt value
      rw [hpush]
      refine ⟨first, l ++ [value], hring', run_concat hrun ?_⟩
      show Fifo.Step _ ⟨l, s.closed⟩ _ ⟨l ++ [value], s.closed⟩
      rw [hopen]
      exact .push hlt
    · have hfull : l.length = 2 ^ k := Nat.le_antisymm hring.length_le (Nat.le_of_not_lt hlt)
      rw [hring.tryPush_full hk1 hk hfull]
      refine ⟨first, l, hring, run_concat hrun ?_⟩
      show Fifo.Step _ ⟨l, s.closed⟩ _ ⟨l, s.closed⟩
      rw [hopen]
      exact .full hfull

theorem State.Refined.popLoop (hk : k ≤ 63) (h : s.Refined k) {atEnd : Answer α}
    (hvalue : ∀ v, Return.event ⟨f, op, .value (some v)⟩ = .pop v)
    (hclosed : Return.event ⟨f, op, atEnd⟩ = .popClosed) : (s.popLoop f op atEnd).Refined k := by
  obtain ⟨first, l, hring, hrun⟩ := h
  rw [State.popLoop]
  cases l with
  | nil =>
    rw [hring.tryPop_nil hk]
    by_cases hc : s.closed = true
    · simp only [if_pos hc]
      refine ⟨first, [], hring, run_concat hrun ?_⟩
      rw [hclosed]
      exact hc ▸ .popClosed
    · simp only [if_neg hc]
      split_ifs
      · exact ⟨first, [], hring, hrun⟩
      · exact ⟨first, [], hring, hrun⟩
  | cons v l =>
    obtain ⟨ring, hpop, hring'⟩ := hring.tryPop_cons hk
    rw [hpop]
    refine ⟨first + 1, l, hring', run_concat hrun ?_⟩
    rw [hvalue]
    exact .pop

omit [DecidableEq F] in
theorem State.Refined.tryPop (hk : k ≤ 63) (h : s.Refined k) : (s.tryPop f).Refined k := by
  obtain ⟨first, l, hring, hrun⟩ := h
  rw [State.tryPop]
  cases l with
  | nil =>
    rw [hring.tryPop_nil hk]
    refine ⟨first, [], hring, run_concat hrun ?_⟩
    show Fifo.Step _ ⟨[], s.closed⟩ _ ⟨[], s.closed⟩
    by_cases hc : s.closed = true
    · rw [if_pos hc, hc]
      exact .popClosed
    · rw [if_neg hc, Bool.eq_false_of_not_eq_true hc]
      exact .empty
  | cons v l =>
    obtain ⟨ring, hpop, hring'⟩ := hring.tryPop_cons hk
    rw [hpop]
    exact ⟨first + 1, l, hring', run_concat hrun .pop⟩

theorem State.Refined.close (h : s.Refined k) : (s.close f).Refined k := by
  obtain ⟨first, l, hring, hrun⟩ := h
  exact ⟨first, l, hring, run_concat hrun .close⟩

theorem State.Refined.iterate (hk1 : 1 ≤ k) (hk : k ≤ 63) (h : s.Refined k) :
    (s.iterate f op).Refined k := by
  cases op with
  | push value => exact h.pushLoop hk1 hk rfl rfl
  | pushWaitUntil value _ => exact h.pushLoop hk1 hk rfl rfl
  | tryPush value => exact h.tryPush hk1 hk value
  | pop => exact h.popLoop hk (fun _ => rfl) rfl
  | popWaitUntil _ => exact h.popLoop hk (fun _ => rfl) rfl
  | valuePop => exact h.popLoop hk (fun _ => rfl) rfl
  | tryPop => exact h.tryPop hk
  | close => exact h.close

theorem State.Refined.resume (h : s.Refined k) : (s.resume f op).Refined k := by
  obtain ⟨first, l, hring, hrun⟩ := h
  rw [State.resume]
  cases op with
  | pushWaitUntil value timeoutTime =>
    split_ifs
    · exact ⟨first, l, hring, hrun⟩
    · exact ⟨first, l, hring, run_concat hrun .timeout⟩
  | popWaitUntil timeoutTime =>
    split_ifs
    · exact ⟨first, l, hring, hrun⟩
    · exact ⟨first, l, hring, run_concat hrun .timeout⟩
  | _ => exact ⟨first, l, hring, hrun⟩

theorem State.Refined.step (hk1 : 1 ≤ k) (hk : k ≤ 63) (h : s.Refined k) {a : Action F α}
    (hs : step s a = some t) : t.Refined k := by
  cases stepped hs with
  | iterate => exact h.iterate hk1 hk
  | resume => exact h.resume
  | call | expire | tick => exact h

theorem State.Refined.of_reachable (hk1 : 1 ≤ k) (hk : k ≤ 63) {clock : Nat}
    (hcreate : Ring.create (2 ^ k) = some r) (hs : (machine r clock).Reachable s) : s.Refined k := by
  refine hs.invariant (P := State.Refined k) ?_ fun _ _ _ hi hs => hi.step hk1 hk hs
  obtain ⟨ring, hring, hholds⟩ := Ring.Holds.create (α := α) hk
  rw [hcreate, Option.some.injEq] at hring
  exact ⟨0, [], hring ▸ hholds, .nil⟩

/-! ### A bounded queue that is drained after its end -/

/-- The calls that have returned are those of a queue of at most `2 ^ k` values, and the ring holds what
is in the queue. -/
structure IsQueue (k : Nat) (s : State F α) (q : Fifo α) : Prop where
  run : Fifo.Run (2 ^ k) (s.log.map Return.event) q
  closed : q.closed = s.closed
  contents : s.ring.contents = q.contents.map some
  length_le : q.contents.length ≤ 2 ^ k
  /-- the values come out in the order in which they have gone in, each of them once -/
  order : Fifo.pushes (s.log.map Return.event) =
    Fifo.pops (s.log.map Return.event) ++ q.contents
  /-- nothing goes in behind `close` -/
  no_push : ∀ before v after, s.log.map Return.event = before ++ .push v :: after → .close ∉ before
  /-- the end is reported behind `close`, when everything has come out -/
  drained : ∀ before after, s.log.map Return.event = before ++ .popClosed :: after →
    .close ∈ before ∧ Fifo.pops before = Fifo.pushes before

theorem buffered_channel_fifo (hk1 : 1 ≤ k) (hk : k ≤ 63) {clock : Nat}
    (hcreate : Ring.create (2 ^ k) = some r) (hs : (machine r clock).Reachable s) :
    ∃ q, IsQueue k s q := by
  obtain ⟨first, l, hring, hrun⟩ := State.Refined.of_reachable hk1 hk hcreate hs
  exact ⟨⟨l, s.closed⟩, hrun, rfl, hring.contents hk, hrun.length_le, hrun.conserve,
    fun _ _ _ => hrun.no_push, fun _ _ => hrun.drained⟩

/-- Two fibers and a channel of two slots, which is full, closed and drained; a third push has timed
out. -/
theorem buffered_channel_fifo_two : ∃ s : State Nat Nat, s.closed = true ∧
    Fifo.pops (s.log.map Return.event) = [5, 6] ∧ ∃ q, IsQueue 1 s q := by
  obtain ⟨s, hs, hclosed, hpops⟩ : ∃ s : State Nat Nat,
      (machine ⟨0, 0, fun i => ⟨i, none⟩, 2⟩ 0).exec (machine ⟨0, 0, fun i => ⟨i, none⟩, 2⟩ 0).start
        [.call 0 (.push 5), .iterate, .call 0 (.tryPush 6), .iterate, .call 1 (.pushWaitUntil 7 3),
          .iterate, .tick 3, .expire 1, .resume 1, .call 0 .close, .iterate, .call 1 .pop, .iterate,
          .call 0 .valuePop, .iterate, .call 1 .tryPop, .iterate] = some s ∧
      s.closed = true ∧ Fifo.pops (s.log.map Return.event) = [5, 6] := ⟨_, rfl, rfl, rfl⟩
  exact ⟨s, hclosed, hpops,
    buffered_channel_fifo (by decide) (by decide) rfl (Machine.reachable_of_exec hs)⟩

end Dumbo.Fiber.BufferedChannel
