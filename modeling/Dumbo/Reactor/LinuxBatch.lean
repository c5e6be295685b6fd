import Dumbo.Reactor.LinuxFile

/-!
# A Linux batch completes

During a round the message counts the events that are still to come; between two rounds there are
none.
-/

namespace Dumbo.Reactor.LinuxFile

open Transition

/-- The blocks of the round in which the fiber stands. -/
def Pc.round : Pc → Nat
  | .waiting res | .ready res => res
  | _ => 0

def Pc.isWaiting : Pc → Bool
  | .waiting _ => true
  | _ => false

/-- The number of blocks accepted so far. -/
def State.upper (s : State) : Nat :=
  s.done + s.pc.round

structure Inv (total : Nat) (s : State) : Prop where
  fault : s.fault = false
  accepted : s.accepted = List.range' 0 s.upper
  upper : s.upper ≤ total
  waiting : s.pc.isWaiting = true → s.remaining = s.inFlight.length + s.buffer.length ∧ 0 < s.remaining
  quiet : s.pc.isWaiting = false → s.inFlight = [] ∧ s.buffer = []
  nodup : s.inFlight.Nodup
  within : ∀ i ∈ s.inFlight, s.done ≤ i ∧ i < s.upper
  events : ∀ i < s.upper, i ∉ s.inFlight → s.events i = some (s.blocks i)
  suspends : s.suspends = s.answers.countP (0 < ·)
  returned : ∀ c, s.pc = .returned c → (∀ res ∈ s.answers, 0 < res) → c = total ∧ s.done = total

variable {total : Nat} {s t : State}

theorem toSubmit_le (total done : Nat) : toSubmit total done ≤ (total - done : Nat) := by
  have hle : ∀ (x m : Nat), (x : Int).bmod m ≤ x := by
    intro x m
    have hmod : ((x % m : Nat) : Int) ≤ x := Int.ofNat_le.mpr (Nat.mod_le x m)
    rw [Int.bmod_eq_emod]
    rw [Int.natCast_emod] at hmod
    split <;> omega
  exact hle (total - done) _

theorem Inv.initial (submited : Nat) (blocks : Nat → Outcome) :
    Inv total (initial submited blocks total) := by
  refine ⟨rfl, rfl, Nat.zero_le _, ?_, fun _ => ⟨rfl, rfl⟩, List.nodup_nil, ?_, ?_, rfl, ?_⟩
  · simp [LinuxFile.initial, Pc.isWaiting]
  · simp [LinuxFile.initial]
  · simp [LinuxFile.initial, State.upper, Pc.round]
  · simp [LinuxFile.initial]

theorem Inv.accept (h : Inv total s) {n : Nat} (hpc : s.pc = .submit) (hnum : 0 < n)
    (hle : s.done + n ≤ total) :
    Inv total (({ s with answers := s.answers ++ [(n : Int)] }.addSubmited n).waitFor n) := by
  obtain ⟨hflight, hbuffer⟩ := h.quiet (by rw [hpc]; rfl)
  have hupper : s.upper = s.done := by rw [State.upper, hpc]; rfl
  have haccepted : s.accepted = List.range' 0 s.done := hupper ▸ h.accepted
  have hin : s.inFlight ++ List.range' s.done n = List.range' s.done n := by
    rw [hflight, List.nil_append]
  refine ⟨h.fault, ?_, hle, fun _ => ⟨?_, hnum⟩, fun hf => absurd hf (by simp [State.waitFor, Pc.isWaiting]),
    ?_, ?_, ?_, ?_, fun c hc => absurd hc (by simp [State.waitFor])⟩
  · show s.accepted ++ List.range' s.done n = List.range' 0 (s.done + n)
    rw [haccepted, ← List.range'_append_1, Nat.zero_add]
  · show n = (s.inFlight ++ List.range' s.done n).length + s.buffer.length
    rw [hin, hbuffer, List.length_range']
    rfl
  · show (s.inFlight ++ List.range' s.done n).Nodup
    rw [hin]
    exact List.nodup_range'
  · show ∀ i ∈ s.inFlight ++ List.range' s.done n, s.done ≤ i ∧ i < s.done + n
    rw [hin]
    exact fun i hi => List.mem_range'_1.mp hi
  · show ∀ i < s.done + n, i ∉ s.inFlight ++ List.range' s.done n →
      s.events i = some (s.blocks i)
    rw [hin]
    intro i hi hnot
    have hlt : i < s.done := by
      by_contra hge
      exact hnot (List.mem_range'_1.mpr ⟨Nat.le_of_not_lt hge, hi⟩)
    exact h.events i (by rw [hupper]; exact hlt) (by rw [hflight]; exact List.not_mem_nil)
  · show s.suspends + 1 = (s.answers ++ [(n : Int)]).countP (0 < ·)
    rw [List.countP_append, List.countP_singleton, h.suspends, if_pos]
    exact decide_eq_true (Int.natCast_pos.mpr hnum)

theorem Inv.exit (h : Inv total s) {pc : Pc} (hpc : s.pc = .submit) (hround : pc.round = 0)
    (hwaiting : pc.isWaiting = false) {l : List Int}
    (hanswers : l.countP (0 < ·) = s.answers.countP (0 < ·))
    (hreturned : ∀ c, pc = .returned c → (∀ res ∈ l, 0 < res) → c = total ∧ s.done = total) :
    Inv total { s with pc := pc, answers := l } := by
  have hsame : ({ s with pc := pc, answers := l } : State).upper = s.upper := by
    rw [State.upper, State.upper, hpc, hround]
    rfl
  refine ⟨h.fault, ?_, ?_, fun hf => absurd hf (by rw [hwaiting]; decide),
    fun _ => h.quiet (by rw [hpc]; rfl), h.nodup, ?_, ?_, ?_, hreturned⟩
  · rw [hsame]
    exact h.accepted
  · rw [hsame]
    exact h.upper
  · rw [hsame]
    exact h.within
  · rw [hsame]
    exact h.events
  · exact h.suspends.trans hanswers.symm

theorem Inv.submit {res : Int} (h : Inv total s) (hs : step total s (.submit res) = some t) :
    Inv total t := by
  rw [step, Option.ite_none_right_eq_some] at hs
  obtain ⟨⟨hpc, hlt, hanswer⟩, hs⟩ := hs
  have hcount : ¬ 0 < res → (s.answers ++ [res]).countP (0 < ·) = s.answers.countP (0 < ·) := by
    intro hneg
    rw [List.countP_append, List.countP_singleton, if_neg (by simpa using hneg), Nat.add_zero]
  by_cases hpos : 0 < res
  · rw [if_pos hpos, Option.some.injEq] at hs
    subst hs
    have hle := toSubmit_le total s.done
    have hres : ((res.toNat : Nat) : Int) = res := Int.toNat_of_nonneg (Int.le_of_lt hpos)
    have haccept := h.accept (n := res.toNat) hpc (by omega) (by
      rcases hanswer with hneg | ⟨_, hle'⟩ | ⟨_, hzero⟩ <;> omega)
    rwa [hres] at haccept
  · rw [if_neg hpos] at hs
    by_cases hneg : res < 0
    · rw [if_pos hneg, Option.some.injEq] at hs
      subst hs
      exact h.exit hpc rfl rfl (hcount hpos) fun c hc => absurd hc (by simp)
    · rw [if_neg hneg, Option.some.injEq] at hs
      subst hs
      refine h.exit hpc rfl rfl (hcount hpos) fun c _ hall => ?_
      exact absurd (hall res (List.mem_append_right _ (List.mem_singleton_self _))) hpos

theorem Inv.leave (h : Inv total s) (hs : step total s .leave = some t) : Inv total t := by
  rw [step, Option.ite_none_right_eq_some, Option.some.injEq] at hs
  obtain ⟨⟨hpc, hge⟩, rfl⟩ := hs
  have hle : s.done ≤ total := by
    have hupper := h.upper
    rwa [State.upper, hpc] at hupper
  have hdone : s.done = total := Nat.le_antisymm hle (Nat.le_of_not_lt hge)
  refine h.exit (l := s.answers) hpc rfl rfl rfl fun c hc _ => ?_
  rw [Pc.returned.injEq] at hc
  exact ⟨hc ▸ hdone, hdone⟩

theorem Inv.isWaiting_of_mem (h : Inv total s) {i : Nat} (hi : i ∈ s.inFlight) :
    s.pc.isWaiting = true := by
  by_contra hw
  rw [(h.quiet (by simpa using hw)).1] at hi
  exact absurd hi List.not_mem_nil

theorem Inv.waiting_of_buffer (h : Inv total s) (hbuffer : s.buffer ≠ []) :
    ∃ res, s.pc = .waiting res := by
  cases hpc : s.pc with
  | waiting res => exact ⟨res, rfl⟩
  | _ => exact absurd (h.quiet (by rw [hpc]; rfl)).2 hbuffer

theorem Inv.poll {block : Nat} {event : Outcome} (h : Inv total s)
    (hs : step total s (.poll block event) = some t) : Inv total t := by
  rw [step, Option.ite_none_right_eq_some, Option.some.injEq] at hs
  obtain ⟨⟨_, hmem⟩, rfl⟩ := hs
  have hwaiting := h.isWaiting_of_mem hmem
  refine ⟨h.fault, h.accepted, h.upper, fun _ => ?_, fun hf => ?_, h.nodup.erase _, fun i hi => ?_,
    fun i hi hnot => ?_, h.suspends, h.returned⟩
  · obtain ⟨hremaining, hpos⟩ := h.waiting hwaiting
    refine ⟨?_, hpos⟩
    have hlen := List.length_erase_add_one hmem
    show s.remaining = (s.inFlight.erase block).length + (s.buffer ++ [block]).length
    rw [List.length_append, List.length_singleton]
    omega
  · rw [hwaiting] at hf
    exact absurd hf (by decide)
  · exact h.within i (List.mem_of_mem_erase hi)
  · by_cases he : i = block
    · subst he
      simp only [Function.update_self]
    · simp only [Function.update_of_ne he]
      exact h.events i hi fun hin => hnot ((List.mem_erase_of_ne he).mpr hin)

theorem Inv.finish (h : Inv total s) (hs : step total s .finish = some t) : Inv total t := by
  simp only [step] at hs
  split at hs
  · rename_i block rest hbuffer
    rw [Option.ite_none_right_eq_some, Option.some.injEq] at hs
    obtain ⟨_, rfl⟩ := hs
    obtain ⟨res, hpc⟩ := h.waiting_of_buffer (by simp [hbuffer])
    have hwaiting : s.pc.isWaiting = true := by rw [hpc]; rfl
    obtain ⟨hremaining, hpos⟩ := h.waiting hwaiting
    rw [hbuffer, List.length_cons] at hremaining
    have hdecrement : decrement s.remaining = s.inFlight.length + rest.length := by
      rw [decrement, if_neg (Nat.ne_of_gt hpos), hremaining]
      rfl
    have hupper : ∀ pc : Pc, pc.round = res → ({ s with
        buffer := rest, remaining := decrement s.remaining, pc := pc } : State).upper = s.upper := by
      intro pc hround
      rw [State.upper, State.upper, hpc, hround]
      rfl
    simp only [State.finish]
    by_cases hzero : decrement s.remaining = 0
    · -- the last event of the round
      rw [if_pos hzero]
      simp only [State.resume, hpc]
      have hsame := hupper (.ready res) rfl
      rw [hdecrement] at hzero
      refine ⟨h.fault, ?_, ?_, fun hf => absurd hf Bool.false_ne_true, fun _ => ⟨?_, ?_⟩, h.nodup, ?_,
        ?_, h.suspends, fun c hc => absurd hc (by simp)⟩
      · rw [hsame]
        exact h.accepted
      · rw [hsame]
        exact h.upper
      · exact List.eq_nil_of_length_eq_zero (show s.inFlight.length = 0 by omega)
      · exact List.eq_nil_of_length_eq_zero (show rest.length = 0 by omega)
      · rw [hsame]
        exact h.within
      · rw [hsame]
        exact h.events
    · rw [if_neg hzero]
      refine ⟨h.fault, h.accepted, h.upper, fun _ => ⟨hdecrement, Nat.pos_of_ne_zero hzero⟩,
        fun hf => ?_, h.nodup, h.within, h.events, h.suspends, h.returned⟩
      rw [hwaiting] at hf
      exact absurd hf (by decide)
  · exact absurd hs (by simp)

theorem Inv.pick (h : Inv total s) (hs : step total s .pick = some t) : Inv total t := by
  simp only [step] at hs
  split at hs
  · rename_i res hpc
    rw [Option.some.injEq] at hs
    subst hs
    have hquiet := h.quiet (by rw [hpc]; rfl)
    have hupper : s.upper = s.done + res := by rw [State.upper, hpc]; rfl
    refine ⟨h.fault, hupper ▸ h.accepted, hupper ▸ h.upper, fun hf => absurd hf Bool.false_ne_true,
      fun _ => hquiet, h.nodup, fun i hi => ?_, hupper ▸ h.events, h.suspends,
      fun c hc => absurd hc (by simp)⟩
    have hi' : i ∈ s.inFlight := hi
    rw [hquiet.1] at hi'
    exact absurd hi' List.not_mem_nil
  · exact absurd hs (by simp)

theorem Inv.step {a : Action} (h : Inv total s) (hs : step total s a = some t) : Inv total t := by
  cases a with
  | submit res => exact h.submit hs
  | leave => exact h.leave hs
  | poll block event => exact h.poll hs
  | finish => exact h.finish hs
  | pick => exact h.pick hs

theorem Inv.of_reachable {submited : Nat} {blocks : Nat → Outcome}
    (h : (machine submited blocks total).Reachable s) : Inv total s :=
  h.invariant (P := Inv total) (Inv.initial submited blocks) fun _ _ _ hi hs => hi.step hs

/-! ### The batch -/

structure Completes (total : Nat) (s : State) : Prop where
  /-- each block is accepted at most once, in index order -/
  order : ∃ count ≤ total, s.accepted = List.range' 0 count
  /-- the fiber is suspended once for each successful `io_submit` -/
  suspends : s.suspends = s.answers.countP (0 < ·)
  /-- and suspended exactly while an event of its round is outstanding -/
  suspended : s.pc.isWaiting = true ↔ s.inFlight ++ s.buffer ≠ []
  /-- the values in the blocks are those of their own events -/
  values : ∀ c, s.pc = .returned c → (∀ res ∈ s.answers, 0 < res) →
    c = total ∧ ∀ i < total, s.events i = some (s.blocks i)
  /-- no event is to come for a message that has been destroyed -/
  destroyed : s.pc = .threw ∨ (∃ c, s.pc = .returned c) → s.inFlight = [] ∧ s.buffer = []
  fault : s.fault = false

theorem linux_batch_completes {submited : Nat} {blocks : Nat → Outcome}
    (h : (machine submited blocks total).Reachable s) : Completes total s := by
  have hinv := Inv.of_reachable h
  refine ⟨⟨s.upper, hinv.upper, hinv.accepted⟩, hinv.suspends, ⟨fun hw hnil => ?_, fun hne => ?_⟩,
    fun c hc hall => ?_, ?_, hinv.fault⟩
  · obtain ⟨hremaining, hpos⟩ := hinv.waiting hw
    have hlen := congrArg List.length hnil
    rw [List.length_append, List.length_nil] at hlen
    omega
  · by_contra hw
    obtain ⟨hflight, hbuffer⟩ := hinv.quiet (by simpa using hw)
    rw [hflight, hbuffer] at hne
    exact hne rfl
  · obtain ⟨hcount, hdone⟩ := hinv.returned c hc hall
    refine ⟨hcount, fun i hi => hinv.events i ?_ ?_⟩
    · rw [State.upper, hdone]
      exact Nat.lt_of_lt_of_le hi (Nat.le_add_right _ _)
    · rw [(hinv.quiet (by rw [hc]; rfl)).1]
      exact List.not_mem_nil
  · rintro (hpc | ⟨c, hpc⟩)
    · exact hinv.quiet (by rw [hpc]; rfl)
    · exact hinv.quiet (by rw [hpc]; rfl)

/-- Two rounds, the events of the first one polled in another order. -/
theorem linux_batch_completes_three : ∃ s, s.pc = .returned 3 ∧ s.accepted = [0, 1, 2] ∧
    s.blocks 1 = ⟨512, 1⟩ ∧ Completes 3 s := by
  obtain ⟨s, hs, hpc, ha, hb⟩ : ∃ s, (machine 0 (fun _ => ⟨0, 0⟩) 3).exec
      (initial 0 (fun _ => ⟨0, 0⟩) 3) [.submit 2, .poll 1 ⟨512, 1⟩, .finish, .poll 0 ⟨512, 0⟩, .finish,
        .pick, .submit 1, .poll 2 ⟨-5, 0⟩, .finish, .pick, .leave] = some s ∧
      s.pc = .returned 3 ∧ s.accepted = [0, 1, 2] ∧ s.blocks 1 = ⟨512, 1⟩ := ⟨_, rfl, rfl, rfl, rfl⟩
  exact ⟨s, hpc, ha, hb, linux_batch_completes (Machine.reachable_of_exec hs)⟩

end Dumbo.Reactor.LinuxFile
