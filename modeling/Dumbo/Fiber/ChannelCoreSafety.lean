import Dumbo.Fiber.ChannelCoreInvariant

/-!
# No value is lost, doubled or overwritten
-/

namespace Dumbo.Fiber.ChannelCore

open Transition BufferedChannel

variable {Θ α : Type*} {m : Nat} {s : State Θ α}

structure Safe (m : Nat) (s : State Θ α) : Prop where
  /-- no two pops have returned the value of one index -/
  once : (s.returned.map Prod.fst).Nodup
  /-- a pop has returned what the push of its index has brought -/
  value : ∀ n v, (n, v) ∈ s.returned → n < s.pushed.length ∧ v = s.pushed[n]?
  /-- a value that has not been returned stays in its slot, from its write on -/
  kept : ∀ n, n < s.pushed.length → n ∉ s.returned.map Prod.fst →
    (∃ t value idx, s.pc t = .pushWrite value idx n) ∨
      (s.ring.slots (n % m)).storage = s.pushed[n]?
  popped : s.popped ≤ s.pushed.length
  bounded : s.pushed.length ≤ s.returned.length + m

theorem Inv.turn_of_held (h : Inv m s) {n : Nat} (hpushed : n < s.pushed.length)
    (hheld : n ∉ s.returned.map Prod.fst) :
    (s.turn (n % m) = n ∨ s.turn (n % m) = n + 1) ∧ s.pushed.length ≤ n + m := by
  rw [h.released n] at hheld
  obtain ⟨i, hi, ⟨hturn, -, -, hround⟩ | ⟨hturn, -, -, hround⟩⟩ := h.slot_cases n
  · obtain rfl : i = n := eq_of_mod_eq hi (by omega) (by omega)
    exact ⟨.inl hturn, hround⟩
  · obtain rfl : i = n := eq_of_mod_eq hi (by omega) (by omega)
    exact ⟨.inr hturn, hround⟩

theorem Inv.safe (h : Inv m s) : Safe m s := by
  refine ⟨h.nodup, fun n v hv => ?_, fun n hpushed hheld => ?_, h.popped_le, ?_⟩
  · obtain ⟨hlt, hvalue⟩ := h.returned n v hv
    exact ⟨hlt.trans_le h.popped_le, hvalue⟩
  · rcases (h.turn_of_held hpushed hheld).1 with hturn | hturn
    · obtain ⟨t, hw⟩ := h.writer n hpushed hturn
      have hthread := h.thread t
      cases hpc : s.pc t with
      | pushWrite value idx index =>
        rw [hpc] at hw
        obtain rfl : index = n := hw
        exact .inl ⟨t, value, idx, hpc⟩
      | pushStore idx index =>
        rw [hpc] at hw hthread
        obtain rfl : index = n := hw
        exact .inr hthread.2.2.2
      | _ =>
        rw [hpc] at hw
        exact hw.elim
    · exact .inr (h.full n hturn).2.2.2
  · have hsub : List.range (s.pushed.length - m) ⊆ s.returned.map Prod.fst := by
      intro n hn
      rw [List.mem_range] at hn
      by_contra hheld
      have hround := (h.turn_of_held (by omega) hheld).2
      omega
    have hle := (List.subperm_of_subset List.nodup_range hsub).length_le
    rw [List.length_range, List.length_map] at hle
    omega

variable [DecidableEq Θ] {k : Nat}

/-- However the steps of the threads interleave. -/
theorem channel_core_safe (hk1 : 1 ≤ k) (hk : k ≤ 63)
    (h : (machine Θ α k).ReachableWith StepOk s) : Safe (2 ^ k) s :=
  (inv_of_reachable hk1 hk h).safe

/-- Two threads, of which one takes the index that the other has loaded before. -/
theorem channel_core_safe_two : ∃ s : State Bool Nat,
    s.pushed = [5, 7] ∧ s.returned = [(0, some 5)] ∧ Safe 2 s := by
  have hrun : ∃ s : State Bool Nat,
      ((machine Bool Nat 1).guarded fun s a => decide (StepOk s a)).exec (machine Bool Nat 1).start
        [.tryPush true 7, .go true false, .go true false, .tryPush false 5, .go false false, .go false false,
          .go false false, .go true false, .go false false, .go false false, .go true false,
          .tryPop false, .go false false, .go false false, .go false false, .go true false,
          .go false false, .go false false] = some s ∧
        s.pushed = [5, 7] ∧ s.returned = [(0, some 5)] :=
    ⟨_, rfl, rfl, rfl⟩
  obtain ⟨s, hexec, hpushed, hreturned⟩ := hrun
  refine ⟨s, hpushed, hreturned, channel_core_safe (Nat.le_refl 1) (by decide) ?_⟩
  exact (Machine.reachableWith_of_exec hexec).mono fun _ _ ha => of_decide_eq_true ha

/-! ### All the way round -/

section Laps

/-- One call, without the steps of others. -/
def soloPush (t : Θ) (value : α) : List (Action Θ α) :=
  [.tryPush t value, .go t false, .go t false, .go t false, .go t false, .go t false]

def soloPop (t : Θ) : List (Action Θ α) :=
  [.tryPop t, .go t false, .go t false, .go t false, .go t false, .go t false]

def State.push (s : State Θ α) (value : α) : State Θ α :=
  { s with
    ring := { s.ring with producerIdx := (s.ring.producerIdx + 1) % sizeMax }.setSlot
      (s.ring.position s.ring.producerIdx) ⟨(s.ring.producerIdx + 1) % sizeMax, some value⟩
    pushed := s.pushed ++ [value]
    turn := Function.update s.turn (s.ring.position s.ring.producerIdx) (s.pushed.length + 1) }

def State.pop (s : State Θ α) : State Θ α :=
  { s with
    ring := { s.ring with consumerIdx := (s.ring.consumerIdx + 1) % sizeMax }.setSlot
      (s.ring.position s.ring.consumerIdx)
      ⟨(s.ring.consumerIdx + s.ring.capacity) % sizeMax, s.storage s.ring.consumerIdx⟩
    popped := s.popped + 1
    returned := s.returned ++ [(s.popped, s.storage s.ring.consumerIdx)]
    turn := Function.update s.turn (s.ring.position s.ring.consumerIdx) (s.popped + s.ring.capacity) }

variable {t : Θ}

theorem update_idle (hpc : s.pc t = .idle) : Function.update s.pc t .idle = s.pc := by
  rw [← hpc, Function.update_eq_self]

theorem difference_self (n : Nat) : difference n n = 0 := by
  rw [difference, Int.sub_self]
  rfl

theorem exec_soloPush (value : α) (hpc : s.pc t = .idle)
    (hcycle : s.cycle s.ring.producerIdx = s.ring.producerIdx) :
    (machine Θ α k).exec s (soloPush t value) = some (s.push value) := by
  rw [State.cycle, BufferedChannel.Ring.position] at hcycle
  simp [soloPush, Machine.exec, machine, step, State.go, State.goto, hpc, State.cycle, hcycle,
    State.branch, difference_self, State.winPush, BufferedChannel.Ring.position, State.write, State.store,
    State.storage, State.push, update_idle hpc, BufferedChannel.Ring.setSlot]

theorem exec_soloPop (hpc : s.pc t = .idle)
    (hcycle : s.cycle s.ring.consumerIdx = (s.ring.consumerIdx + 1) % sizeMax) :
    (machine Θ α k).exec s (soloPop t) = some s.pop := by
  rw [State.cycle, BufferedChannel.Ring.position] at hcycle
  simp [soloPop, Machine.exec, machine, step, State.go, State.goto, hpc, State.cycle, hcycle,
    State.branch, difference_self, State.winPop, BufferedChannel.Ring.position, State.store, State.storage, State.pop,
    update_idle hpc, BufferedChannel.Ring.setSlot]

/-- One thread sleeps before its compare-exchange; the other has pushed and popped `n` values. -/
structure Lap (n : Nat) (s : State Bool Nat) : Prop where
  reachable : (machine Bool Nat 1).Reachable s
  sleeper : s.pc true = .pushExchange 7 0 0
  other : s.pc false = .idle
  capacity : s.ring.capacity = 2
  producerIdx : s.ring.producerIdx = n % sizeMax
  consumerIdx : s.ring.consumerIdx = n % sizeMax
  here : (s.ring.slots (n % 2)).cycle = n % sizeMax
  next : (s.ring.slots ((n + 1) % 2)).cycle = (n + 1) % sizeMax
  pushed : s.pushed = List.replicate n 1
  popped : s.popped = n

theorem Lap.position {n : Nat} {s : State Bool Nat} (h : Lap n s) (i : Nat) :
    s.ring.position (i % sizeMax) = i % 2 :=
  BufferedChannel.Ring.position_mod (k := 1) h.capacity (by decide) i

theorem Lap.zero : ∃ s, Lap 0 s := by
  have hrun : ∃ s : State Bool Nat, (machine Bool Nat 1).exec (machine Bool Nat 1).start
      [.tryPush true 7, .go true false, .go true false] = some s ∧
        s.pc true = .pushExchange 7 0 0 ∧ s.pc false = .idle ∧ s.ring.capacity = 2 ∧
        s.ring.producerIdx = 0 ∧ s.ring.consumerIdx = 0 ∧ (s.ring.slots 0).cycle = 0 ∧
        (s.ring.slots 1).cycle = 1 ∧ s.pushed = [] ∧ s.popped = 0 :=
    ⟨_, rfl, rfl, rfl, rfl, rfl, rfl, rfl, rfl, rfl, rfl⟩
  obtain ⟨s, hexec, hsleeper, hother, hcapacity, hproducer, hconsumer, hhere, hnext, hpushed, hpopped⟩ :=
    hrun
  exact ⟨s, Machine.reachable_of_exec hexec, hsleeper, hother, hcapacity, hproducer, hconsumer, hhere,
    hnext, hpushed, hpopped⟩

theorem Lap.push_cycle {n : Nat} {s : State Bool Nat} (h : Lap n s) :
    s.cycle s.ring.producerIdx = s.ring.producerIdx := by
  rw [State.cycle, h.producerIdx, h.position, h.here]

theorem Lap.succ {n : Nat} {s : State Bool Nat} (h : Lap n s) : ∃ u, Lap (n + 1) u := by
  have hne : (n + 1) % 2 ≠ n % 2 := by omega
  have hslot : (s.push 1).ring.slots =
      Function.update s.ring.slots (n % 2) ⟨(n + 1) % sizeMax, some 1⟩ := by
    rw [← h.position, ← h.producerIdx, ← word_succ, ← h.producerIdx]
    rfl
  have hposition : (s.push 1).ring.position (s.push 1).ring.consumerIdx = n % 2 := by
    rw [← h.position, ← h.consumerIdx]
    rfl
  have hcycle : (s.push 1).cycle (s.push 1).ring.consumerIdx =
      ((s.push 1).ring.consumerIdx + 1) % sizeMax := by
    rw [State.cycle, hposition, hslot, Function.update_self,
      show (s.push 1).ring.consumerIdx = n % sizeMax from h.consumerIdx, word_succ]
  have hslots : (s.push 1).pop.ring.slots = Function.update (s.push 1).ring.slots (n % 2)
      ⟨(n + 2) % sizeMax, (s.push 1).storage (s.push 1).ring.consumerIdx⟩ := by
    rw [← hposition, ← Nat.mod_add_mod, ← h.consumerIdx, ← h.capacity]
    rfl
  have hreach := h.reachable.exec (exec_soloPush 1 h.other h.push_cycle)
  refine ⟨(s.push 1).pop, hreach.exec (exec_soloPop h.other hcycle), h.sleeper, h.other, h.capacity, ?_,
    ?_, ?_, ?_, ?_, ?_⟩
  · show (s.ring.producerIdx + 1) % sizeMax = (n + 1) % sizeMax
    rw [h.producerIdx, word_succ]
  · show (s.ring.consumerIdx + 1) % sizeMax = (n + 1) % sizeMax
    rw [h.consumerIdx, word_succ]
  · rw [hslots, Function.update_of_ne hne, hslot, Function.update_of_ne hne]
    exact h.next
  · rw [hslots, show (n + 1 + 1) % 2 = n % 2 from Nat.add_mod_right n 2, Function.update_self]
  · show s.pushed ++ [1] = List.replicate (n + 1) 1
    rw [h.pushed, List.replicate_succ']
  · show s.popped + 1 = n + 1
    rw [h.popped]

theorem exists_lap (n : Nat) : ∃ s, Lap n s := by
  induction n with
  | zero => exact Lap.zero
  | succ n ih =>
    obtain ⟨s, hs⟩ := ih
    exact hs.succ

/-- The other thread has filled the ring when the index comes round to what the sleeper has loaded: the
sleeper takes the index, and writes over a value that is still to be popped. -/
theorem Lap.overwritten {s : State Bool Nat} (h : Lap (sizeMax - 2) s) :
    ∃ u, (machine Bool Nat 1).Reachable u ∧ (sizeMax - 2, some 7) ∈ u.returned ∧
      u.pushed[sizeMax - 2]? = some 1 := by
  have hproducer : s.ring.producerIdx = sizeMax - 2 := h.producerIdx
  have hconsumer : s.ring.consumerIdx = sizeMax - 2 := h.consumerIdx
  have hzero : s.ring.position (sizeMax - 2) = 0 := h.position (sizeMax - 2)
  have hone : s.ring.position (sizeMax - 1) = 1 := h.position (sizeMax - 1)
  have hstart : s.ring.position 0 = 0 := h.position 0
  have hnext : (s.push 1).ring.producerIdx = sizeMax - 1 := by
    show (s.ring.producerIdx + 1) % sizeMax = sizeMax - 1
    rw [hproducer]
    rfl
  have hslots : (s.push 1).ring.slots = Function.update s.ring.slots 0 ⟨sizeMax - 1, some 1⟩ := by
    show Function.update s.ring.slots (s.ring.position s.ring.producerIdx)
      ⟨(s.ring.producerIdx + 1) % sizeMax, some 1⟩ = _
    rw [hproducer, hzero]
    rfl
  have hcycle : (s.push 1).cycle (s.push 1).ring.producerIdx = (s.push 1).ring.producerIdx := by
    rw [State.cycle, hnext, show (s.push 1).ring.position (sizeMax - 1) = 1 from hone, hslots]
    exact h.next
  have hslot : ((s.push 1).push 1).ring.slots 0 = ⟨sizeMax - 1, some 1⟩ := by
    show Function.update (s.push 1).ring.slots ((s.push 1).ring.position (s.push 1).ring.producerIdx) _ 0 =
      _
    rw [hnext, show (s.push 1).ring.position (sizeMax - 1) = 1 from hone,
      Function.update_of_ne Nat.zero_ne_one, hslots, Function.update_self]
  have hround : ((s.push 1).push 1).ring.producerIdx = 0 := by
    show ((s.push 1).ring.producerIdx + 1) % sizeMax = 0
    rw [hnext]
    rfl
  have hreach : (machine Bool Nat 1).Reachable ((s.push 1).push 1) :=
    (h.reachable.exec (exec_soloPush 1 h.other h.push_cycle)).exec (exec_soloPush 1 h.other hcycle)
  obtain ⟨v, hv⟩ : ∃ v, v = (s.push 1).push 1 := ⟨_, rfl⟩
  have hsleeper : v.pc true = .pushExchange 7 0 0 := hv ▸ h.sleeper
  have hwin : (machine Bool Nat 1).step v (.go true false) = some (v.winPush true 7 0) := by
    show v.go true false = _
    rw [State.go, hsleeper]
    exact if_pos ⟨rfl, hv ▸ hround⟩
  have hwritten : (machine Bool Nat 1).step (v.winPush true 7 0) (.go true false) =
      some (((v.winPush true 7 0).write 0 7).goto true (.pushStore 0 v.pushed.length)) := by
    show (v.winPush true 7 0).go true false = _
    have hpc : (v.winPush true 7 0).pc = Function.update v.pc true (.pushWrite 7 0 v.pushed.length) := rfl
    rw [State.go, hpc, Function.update_self]
  obtain ⟨x, hx⟩ : ∃ x, x = ((v.winPush true 7 0).write 0 7).goto true (.pushStore 0 v.pushed.length) :=
    ⟨_, rfl⟩
  have hreachx : (machine Bool Nat 1).Reachable x := by
    rw [hx]
    have hreachv : (machine Bool Nat 1).Reachable v := hv ▸ hreach
    exact .step (.step hreachv trivial hwin) trivial hwritten
  have hotherx : x.pc false = .idle := by
    rw [hx, hv]
    exact h.other
  have hslotx : x.ring.slots 0 = ⟨sizeMax - 1, some 7⟩ := by
    have hstart' : (v.winPush true 7 0).ring.position 0 = 0 := by
      rw [hv]
      exact hstart
    have hcell : ((v.winPush true 7 0).ring.slots 0).cycle = sizeMax - 1 := by
      rw [hv]
      exact congrArg Slot.cycle hslot
    rw [hx]
    show Function.update (v.winPush true 7 0).ring.slots ((v.winPush true 7 0).ring.position 0)
      ⟨((v.winPush true 7 0).ring.slots ((v.winPush true 7 0).ring.position 0)).cycle, some 7⟩ 0 = _
    rw [hstart', Function.update_self, hcell]
  have hconsumerx : x.ring.consumerIdx = sizeMax - 2 := by
    rw [hx, hv]
    exact hconsumer
  have hzerox : x.ring.position x.ring.consumerIdx = 0 := by
    rw [hconsumerx, hx, hv]
    exact hzero
  have hcyclex : x.cycle x.ring.consumerIdx = (x.ring.consumerIdx + 1) % sizeMax := by
    rw [State.cycle, hzerox, hslotx, hconsumerx]
    rfl
  refine ⟨x.pop, hreachx.exec (exec_soloPop hotherx hcyclex), ?_, ?_⟩
  · have hpopped : x.popped = sizeMax - 2 := by
      rw [hx, hv]
      exact h.popped
    refine List.mem_append_right _ (List.mem_singleton.mpr (Prod.ext hpopped.symm ?_))
    show some 7 = (x.ring.slots (x.ring.position x.ring.consumerIdx)).storage
    rw [hzerox, hslotx]
  · have hpushed : x.pop.pushed = s.pushed ++ [1] ++ [1] ++ [7] := by
      rw [show x.pop.pushed = x.pushed from rfl, hx, hv]
      rfl
    rw [hpushed, h.pushed]
    simp

/-- Without a bound on the sleep. -/
theorem channel_core_overwrites : ∃ s : State Bool Nat, (machine Bool Nat 1).Reachable s ∧
    (sizeMax - 2, some 7) ∈ s.returned ∧ s.pushed[sizeMax - 2]? = some 1 := by
  obtain ⟨s, hs⟩ := exists_lap (sizeMax - 2)
  exact hs.overwritten

end Laps

end Dumbo.Fiber.ChannelCore
