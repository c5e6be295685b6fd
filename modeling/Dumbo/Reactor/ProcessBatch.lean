import Dumbo.Reactor.LinuxBatch
import Dumbo.Reactor.WindowsWaits

/-!
# The two implementations of `process_batch`

What a call reports when the system accepts the first blocks of a batch and rejects the next one.
-/

namespace Dumbo.Reactor

open Transition

inductive Ending
  | returned (count : Nat)
  | threw
  deriving DecidableEq, Repr

/-- How a call has ended, `batch.submited()` behind it, and the number of accepted and of unfinished
operations. -/
structure Report where
  ending : Ending
  submited : Nat
  accepted : Nat
  outstanding : Nat
  deriving DecidableEq, Repr

/-- The report on a batch of `total` blocks of which the system accepts the first `k`. -/
def expected (total k : Nat) (riseExOnError : Bool) : Report :=
  ⟨if k < total ∧ riseExOnError then .threw else .returned k, k, k, 0⟩

namespace LinuxFile

def State.report (s : State) : Option Report :=
  match s.pc with
  | .returned c =>
    some ⟨.returned c, s.submited, s.accepted.length, s.inFlight.length + s.buffer.length⟩
  | .threw => some ⟨.threw, s.submited, s.accepted.length, s.inFlight.length + s.buffer.length⟩
  | _ => none

/-- The system accepts the first `k` blocks and rejects the next one, as far as it is given any. -/
def Accepts (total k : Nat) (s : State) : Action → Prop
  | .submit res =>
    0 < toSubmit total s.done → if s.done < k then 0 < res ∧ s.done + res ≤ k else res < 0
  | _ => True

instance (total k : Nat) (s : State) (a : Action) : Decidable (Accepts total k s a) := by
  cases a <;> unfold Accepts <;> infer_instance

/-- The number of blocks left survives the conversion to `int`, as long as blocks are accepted. -/
def Submittable (total k : Nat) : Prop :=
  (∀ j < k, 0 < toSubmit total j) ∧ (k < total → toSubmit total k ≠ 0)

end LinuxFile

namespace WindowsFile

def Batch.report (s : Batch) : Option Report :=
  match s.pc with
  | .returned c => some ⟨.returned c, s.submited, s.c, s.port.outstanding⟩
  | .threw => some ⟨.threw, s.submited, s.c, s.port.outstanding⟩
  | _ => none

/-- The system accepts the first `k` blocks and rejects the next one. -/
def Accepts (k : Nat) (s : Batch) : Action → Prop
  | .issue answer => answer = if s.c < k then .accepted else .rejected
  | _ => True

instance (k : Nat) (s : Batch) (a : Action) : Decidable (Accepts k s a) := by
  cases a <;> unfold Accepts <;> infer_instance

end WindowsFile

/-! ### Linux -/

namespace LinuxFile

variable {total k submited : Nat} {blocks : Nat → Outcome} {s t : State}

theorem toSubmit_eq (h : total < 2147483648) (done : Nat) : toSubmit total done = (total - done : Nat) := by
  have hbmod : ∀ x : Nat, x < 2147483648 → (x : Int).bmod 4294967296 = x := by
    intro x hx
    rw [Int.bmod_eq_emod]
    have hmod : (x : Int) % 4294967296 = x := Int.emod_eq_of_lt (by omega) (by omega)
    split <;> omega
  exact hbmod _ (by omega)

theorem submittable_of_lt (h : total < 2147483648) (hk : k ≤ total) : Submittable total k := by
  refine ⟨fun j hj => ?_, fun hlt => ?_⟩
  · rw [toSubmit_eq h]
    omega
  · rw [toSubmit_eq h]
    omega

/-- `submited` counts on from what earlier calls have left in the batch. -/
theorem submited_eq (h0 : submited < 18446744073709551616)
    (h : (machine submited blocks total).Reachable s) :
    s.submited = (submited + s.upper) % 18446744073709551616 := by
  refine h.invariant (P := fun s => s.submited = (submited + s.upper) % 18446744073709551616)
    (Nat.mod_eq_of_lt h0).symm fun s a t hi hs => ?_
  cases a with
  | submit res =>
    simp only [machine, step, Option.ite_none_right_eq_some] at hs
    obtain ⟨⟨hpc, _, _⟩, hs⟩ := hs
    have hupper : s.upper = s.done := by rw [State.upper, hpc]; rfl
    rw [hupper] at hi
    split_ifs at hs with hpos hneg
    · rw [Option.some.injEq] at hs
      subst hs
      show (s.submited + res.toNat) % 18446744073709551616 =
        (submited + (s.done + res.toNat)) % 18446744073709551616
      rw [hi, Nat.mod_add_mod, Nat.add_assoc]
    · rw [Option.some.injEq] at hs
      subst hs
      exact hi
    · rw [Option.some.injEq] at hs
      subst hs
      exact hi
  | leave =>
    simp only [machine, step, Option.ite_none_right_eq_some, Option.some.injEq] at hs
    obtain ⟨⟨hpc, _⟩, rfl⟩ := hs
    rw [State.upper, hpc] at hi
    exact hi
  | poll block event =>
    simp only [machine, step, Option.ite_none_right_eq_some, Option.some.injEq] at hs
    obtain ⟨_, rfl⟩ := hs
    exact hi
  | finish =>
    simp only [machine, step] at hs
    split at hs
    · rw [Option.ite_none_right_eq_some, Option.some.injEq] at hs
      obtain ⟨_, rfl⟩ := hs
      simp only [State.finish]
      split
      · simp only [State.resume]
        split
        · rename_i hpc
          rw [State.upper, show s.pc = _ from hpc] at hi
          exact hi
        · exact hi
      · exact hi
    · exact absurd hs (by simp)
  | pick =>
    simp only [machine, step] at hs
    split at hs
    · rename_i res hpc
      rw [Option.some.injEq] at hs
      subst hs
      rw [State.upper, hpc] at hi
      exact hi
    · exact absurd hs (by simp)

/-- What is left of the first `k` blocks, and how the call has ended. -/
def PcOk (total k done : Nat) : Pc → Prop
  | .submit => done ≤ k
  | .waiting res | .ready res => done + res ≤ k
  | .returned c => c = k ∧ done = k ∧ k = total
  | .threw => done = k ∧ k < total

theorem pcOk_of_reachable (hk : k ≤ total) (hfits : Submittable total k)
    (h : (machine submited blocks total).ReachableWith (Accepts total k) s) :
    PcOk total k s.done s.pc := by
  refine h.invariant (P := fun s => PcOk total k s.done s.pc)
    (show PcOk total k 0 .submit from Nat.zero_le k) fun s a t hi hok hs => ?_
  cases a with
  | submit res =>
    simp only [machine, step, Option.ite_none_right_eq_some] at hs
    obtain ⟨⟨hpc, hlt, hanswer⟩, hs⟩ := hs
    rw [hpc] at hi
    have hle : s.done ≤ k := hi
    simp only [Accepts] at hok
    by_cases hdone : s.done < k
    · have hres := hok (hfits.1 _ hdone)
      rw [if_pos hdone] at hres
      rw [if_pos hres.1, Option.some.injEq] at hs
      subst hs
      show s.done + res.toNat ≤ k
      omega
    · have heq : s.done = k := Nat.le_antisymm hle (Nat.le_of_not_lt hdone)
      have hne : toSubmit total s.done ≠ 0 := heq ▸ hfits.2 (heq ▸ hlt)
      have hneg : res < 0 := by
        rcases hanswer with hneg | ⟨hpos, hsub⟩ | ⟨hzero, _⟩
        · exact hneg
        · have hres := hok (Int.lt_of_lt_of_le hpos hsub)
          rwa [if_neg hdone] at hres
        · exact absurd hzero hne
      rw [if_neg (Int.not_lt.mpr (Int.le_of_lt hneg)), if_pos hneg, Option.some.injEq] at hs
      subst hs
      exact ⟨heq, heq ▸ hlt⟩
  | leave =>
    simp only [machine, step, Option.ite_none_right_eq_some, Option.some.injEq] at hs
    obtain ⟨⟨hpc, hge⟩, rfl⟩ := hs
    rw [hpc] at hi
    have hle : s.done ≤ k := hi
    have hdone : s.done = k := by omega
    exact ⟨hdone, hdone, by omega⟩
  | poll block event =>
    simp only [machine, step, Option.ite_none_right_eq_some, Option.some.injEq] at hs
    obtain ⟨_, rfl⟩ := hs
    exact hi
  | finish =>
    simp only [machine, step] at hs
    split at hs
    · rw [Option.ite_none_right_eq_some, Option.some.injEq] at hs
      obtain ⟨_, rfl⟩ := hs
      simp only [State.finish]
      split
      · simp only [State.resume]
        split
        · rename_i hpc
          rw [show s.pc = _ from hpc] at hi
          exact hi
        · exact hi
      · exact hi
    · exact absurd hs (by simp)
  | pick =>
    simp only [machine, step] at hs
    split at hs
    · rename_i res hpc
      rw [Option.some.injEq] at hs
      subst hs
      rw [hpc] at hi
      exact hi
    · exact absurd hs (by simp)

/-- The steps left, at most: four for a block, and one to end. -/
def measure (total : Nat) (s : State) : Nat :=
  match s.pc with
  | .submit => 4 * (total - s.done) + 1
  | .waiting res | .ready res =>
    4 * (total - (s.done + res)) + 2 + 2 * s.inFlight.length + s.buffer.length
  | .returned _ | .threw => 0

theorem measure_lt {a : Action} (h : Inv total s) (hs : step total s a = some t) :
    measure total t < measure total s := by
  cases a with
  | submit res =>
    simp only [step, Option.ite_none_right_eq_some] at hs
    obtain ⟨⟨hpc, hlt, hanswer⟩, hs⟩ := hs
    obtain ⟨hflight, hbuffer⟩ := h.quiet (by rw [hpc]; rfl)
    have hbefore : measure total s = 4 * (total - s.done) + 1 := by rw [measure, hpc]
    rw [hbefore]
    split_ifs at hs with hpos hneg
    · rw [Option.some.injEq] at hs
      subst hs
      show 4 * (total - (s.done + res.toNat)) + 2 +
        2 * (s.inFlight ++ List.range' s.done res.toNat).length + s.buffer.length < _
      rw [hflight, hbuffer, List.nil_append, List.length_range', List.length_nil]
      have hle := toSubmit_le total s.done
      rcases hanswer with hneg | ⟨_, hsub⟩ | ⟨_, hzero⟩ <;> omega
    · rw [Option.some.injEq] at hs
      subst hs
      exact Nat.succ_pos _
    · rw [Option.some.injEq] at hs
      subst hs
      exact Nat.succ_pos _
  | leave =>
    simp only [step, Option.ite_none_right_eq_some, Option.some.injEq] at hs
    obtain ⟨⟨hpc, _⟩, rfl⟩ := hs
    rw [measure, measure, hpc]
    exact Nat.succ_pos _
  | poll block event =>
    simp only [step, Option.ite_none_right_eq_some, Option.some.injEq] at hs
    obtain ⟨⟨_, hmem⟩, rfl⟩ := hs
    have hwaiting := h.isWaiting_of_mem hmem
    have hlen := List.length_erase_add_one hmem
    cases hpc : s.pc with
    | waiting res =>
      simp only [measure, hpc, List.length_append, List.length_singleton]
      omega
    | _ => rw [hpc] at hwaiting; exact absurd hwaiting Bool.false_ne_true
  | finish =>
    simp only [step] at hs
    split at hs
    · rename_i block rest hbuffer
      rw [Option.ite_none_right_eq_some, Option.some.injEq] at hs
      obtain ⟨_, rfl⟩ := hs
      obtain ⟨res, hpc⟩ := h.waiting_of_buffer (by simp [hbuffer])
      have hbefore : measure total s = 4 * (total - (s.done + res)) + 2 + 2 * s.inFlight.length +
          (rest.length + 1) := by
        rw [measure, hpc, hbuffer]
        rfl
      have hafter : measure total ({ s with buffer := rest } : State).finish =
          4 * (total - (s.done + res)) + 2 + 2 * s.inFlight.length + rest.length := by
        simp only [State.finish, State.resume, hpc]
        split <;> simp only [measure]
      omega
    · exact absurd hs (by simp)
  | pick =>
    simp only [step] at hs
    split at hs
    · rename_i res hpc
      rw [Option.some.injEq] at hs
      subst hs
      simp only [measure, hpc]
      omega
    · exact absurd hs (by simp)

theorem progress (h : Inv total s) (hreport : s.report = none) :
    ∃ a t, Accepts total k s a ∧ step total s a = some t := by
  cases hpc : s.pc with
  | submit =>
    by_cases hlt : s.done < total
    · -- the answer that the kernel is to give
      obtain ⟨res, hanswer, hok⟩ : ∃ res, Answers (toSubmit total s.done) res ∧
          Accepts total k s (.submit res) := by
        by_cases hpos : 0 < toSubmit total s.done
        · by_cases hdone : s.done < k
          · refine ⟨1, .inr (.inl ⟨by decide, hpos⟩), fun _ => ?_⟩
            rw [if_pos hdone]
            exact ⟨by decide, by omega⟩
          · refine ⟨-1, .inl (by decide), fun _ => ?_⟩
            rw [if_neg hdone]
            decide
        · exact ⟨-1, .inl (by decide), fun hp => absurd hp hpos⟩
      refine ⟨.submit res, ?_⟩
      simp only [step, if_pos (And.intro hpc (And.intro hlt hanswer))]
      split_ifs <;> exact ⟨_, hok, rfl⟩
    · exact ⟨.leave, _, trivial, if_pos ⟨hpc, hlt⟩⟩
  | waiting res =>
    obtain ⟨hremaining, hpos⟩ := h.waiting (by rw [hpc]; rfl)
    cases hbuffer : s.buffer with
    | nil =>
      rw [hbuffer, List.length_nil, Nat.add_zero] at hremaining
      obtain ⟨block, hmem⟩ := List.exists_mem_of_length_pos (hremaining ▸ hpos)
      exact ⟨.poll block ⟨0, 0⟩, _, trivial, if_pos ⟨by rw [hpc]; rfl, hmem⟩⟩
    | cons block rest =>
      refine ⟨.finish, ({ s with buffer := rest } : State).finish, trivial, ?_⟩
      simp only [step, hbuffer]
      exact if_pos (by rw [hpc]; rfl)
  | ready res =>
    refine ⟨.pick, { s with done := s.done + res, pc := .submit }, trivial, ?_⟩
    simp only [step, hpc]
  | returned c => simp [State.report, hpc] at hreport
  | threw => simp [State.report, hpc] at hreport

theorem report_eq {r : Report} (h0 : submited < 18446744073709551616)
    (hs : (machine submited blocks total).Reachable s) (hr : s.report = some r) :
    r.submited = (submited + s.done) % 18446744073709551616 ∧ r.accepted = s.done ∧
      r.outstanding = 0 ∧ s.pc = match r.ending with | .returned c => .returned c | .threw => .threw := by
  have hinv := Inv.of_reachable hs
  have hsubmited := submited_eq h0 hs
  have haccepted := congrArg List.length hinv.accepted
  rw [List.length_range'] at haccepted
  cases hpc : s.pc with
  | returned c =>
    obtain ⟨hflight, hbuffer⟩ := hinv.quiet (by rw [hpc]; rfl)
    rw [State.upper, hpc] at hsubmited haccepted
    simp only [State.report, hpc, Option.some.injEq] at hr
    subst hr
    rw [hflight, hbuffer]
    exact ⟨hsubmited, haccepted, rfl, rfl⟩
  | threw =>
    obtain ⟨hflight, hbuffer⟩ := hinv.quiet (by rw [hpc]; rfl)
    rw [State.upper, hpc] at hsubmited haccepted
    simp only [State.report, hpc, Option.some.injEq] at hr
    subst hr
    rw [hflight, hbuffer]
    exact ⟨hsubmited, haccepted, rfl, rfl⟩
  | _ => simp [State.report, hpc] at hr

theorem endsIn_expected {rise : Bool} (hsize : total < 18446744073709551616) (hk : k ≤ total)
    (hrise : rise = true ∨ k = total) (hfits : Submittable total k) :
    (machine 0 blocks total).EndsIn (Accepts total k) State.report (expected total k rise) := by
  refine ⟨fun s hs r hr => ?_, fun s hs => progress (Inv.of_reachable hs.reachable),
    measure total, fun s a t hs _ => measure_lt (Inv.of_reachable hs.reachable)⟩
  obtain ⟨hsubmited, haccepted, houtstanding, hpc⟩ := report_eq (by decide) hs.reachable hr
  have hok := pcOk_of_reachable hk hfits hs
  obtain ⟨ending, submited, accepted, outstanding⟩ := r
  rw [hpc] at hok
  cases ending with
  | returned c =>
    obtain ⟨hc, hdone, htotal⟩ := hok
    rw [Nat.zero_add, hdone, Nat.mod_eq_of_lt (Nat.lt_of_le_of_lt hk hsize)] at hsubmited
    simp only [expected, if_neg (show ¬ (k < total ∧ rise) by omega), Report.mk.injEq, hc]
    exact ⟨trivial, hsubmited, haccepted.trans hdone, houtstanding⟩
  | threw =>
    obtain ⟨hdone, hlt⟩ := hok
    rw [Nat.zero_add, hdone, Nat.mod_eq_of_lt (Nat.lt_of_le_of_lt hk hsize)] at hsubmited
    have hrise' : rise = true := hrise.resolve_right (Nat.ne_of_lt hlt)
    simp only [expected, if_pos (And.intro hlt hrise'), Report.mk.injEq]
    exact ⟨trivial, hsubmited, haccepted.trans hdone, houtstanding⟩

theorem round (hk : k ≤ total) (hs : (machine submited blocks total).ReachableWith (Accepts total k) s)
    (hpc : s.pc = .submit) (hlt : s.done < k) (hpos : 0 < toSubmit total s.done) :
    ∃ t, (machine submited blocks total).ReachableWith (Accepts total k) t ∧ t.pc = .submit ∧
      t.done = s.done + 1 := by
  obtain ⟨hflight, hbuffer⟩ := (Inv.of_reachable hs.reachable).quiet (by rw [hpc]; rfl)
  have hsubmit : step total s (.submit 1) =
      some (({ s with answers := s.answers ++ [1] }.addSubmited 1).waitFor 1) := by
    rw [step, if_pos ⟨hpc, Nat.lt_of_lt_of_le hlt hk, .inr (.inl ⟨by decide, hpos⟩)⟩]
    rfl
  have haccepts : Accepts total k s (.submit 1) := fun _ => by
    rw [if_pos hlt]
    exact ⟨by decide, by omega⟩
  set s₁ := ({ s with answers := s.answers ++ [1] }.addSubmited 1).waitFor 1 with h₁
  have hpoll : step total s₁ (.poll s.done ⟨0, 0⟩) = some { s₁ with
      inFlight := []
      buffer := [s.done]
      blocks := Function.update s.blocks s.done ⟨0, 0⟩
      events := Function.update s.events s.done (some ⟨0, 0⟩) } := by
    have hin : s₁.inFlight = [s.done] := by
      show s.inFlight ++ List.range' s.done 1 = [s.done]
      rw [hflight]
      rfl
    have hbuf : s₁.buffer = [] := hbuffer
    rw [step, if_pos ⟨rfl, by rw [hin]; exact List.mem_singleton_self _⟩, hin, hbuf]
    simp only [List.erase_cons_head, List.nil_append]
    rfl
  have hpolled := Machine.ReachableWith.step (.step hs haccepts hsubmit)
    (show Accepts total k s₁ (.poll s.done ⟨0, 0⟩) from trivial) hpoll
  have hfinished := Machine.ReachableWith.step hpolled
    (show Accepts total k _ .finish from trivial) rfl
  exact ⟨_, .step hfinished (show Accepts total k _ .pick from trivial) rfl, rfl, rfl⟩

theorem exists_done (submited : Nat) (blocks : Nat → Outcome) {j : Nat} (hj : j ≤ k) (hk : k ≤ total) (hpos : ∀ i < j, 0 < toSubmit total i) :
    ∃ s, (machine submited blocks total).ReachableWith (Accepts total k) s ∧ s.pc = .submit ∧
      s.done = j := by
  induction j with
  | zero => exact ⟨_, .start, rfl, rfl⟩
  | succ j ih =>
    obtain ⟨s, hs, hpc, hdone⟩ := ih (Nat.le_of_succ_le hj) fun i hi => hpos i (Nat.lt_succ_of_lt hi)
    obtain ⟨t, ht, hpc', hdone'⟩ := round hk hs hpc (hdone ▸ hj) (hdone ▸ hpos j (Nat.lt_succ_self j))
    exact ⟨t, ht, hpc', by rw [hdone', hdone]⟩

theorem reject (hs : (machine submited blocks total).ReachableWith (Accepts total k) s)
    (hpc : s.pc = .submit) (hlt : s.done < total) (hok : Accepts total k s (.submit (-1))) :
    ∃ t, (machine submited blocks total).ReachableWith (Accepts total k) t ∧ t.pc = .threw ∧
      t.done = s.done := by
  have hstep : step total s (.submit (-1)) =
      some { s with answers := s.answers ++ [-1], pc := .threw } := by
    rw [step, if_pos ⟨hpc, hlt, .inl (by decide)⟩]
    rfl
  exact ⟨_, .step hs hok hstep, rfl, rfl⟩

theorem over_of_endsIn {rise : Bool} (h0 : submited < 18446744073709551616)
    (h : (machine submited blocks total).EndsIn (Accepts total k) State.report (expected total k rise))
    (hs : (machine submited blocks total).ReachableWith (Accepts total k) s) (hover : s.report ≠ none) :
    s.done = k ∧ (submited + k) % 18446744073709551616 = k ∧
      s.pc = if k < total ∧ rise then .threw else .returned k := by
  obtain ⟨r, hr⟩ := Option.ne_none_iff_exists'.mp hover
  obtain ⟨hsubmited, haccepted, _, hpc⟩ := report_eq h0 hs.reachable hr
  rw [h.same s hs r hr] at hsubmited haccepted hpc
  have hdone : s.done = k := haccepted.symm
  rw [hdone] at hsubmited
  refine ⟨hdone, hsubmited.symm, ?_⟩
  rw [hpc, expected]
  split_ifs <;> rfl

theorem of_endsIn {rise : Bool} (h0 : submited < 18446744073709551616) (hk : k ≤ total)
    (h : (machine submited blocks total).EndsIn (Accepts total k) State.report
      (expected total k rise)) :
    submited = 0 ∧ (rise = true ∨ k = total) ∧ Submittable total k := by
  have hpos : ∀ j < k, 0 < toSubmit total j := by
    intro j
    induction j using Nat.strong_induction_on with
    | _ j ih =>
      intro hj
      by_contra hneg
      obtain ⟨s, hs, hpc, hdone⟩ := exists_done submited blocks
        (Nat.le_of_lt hj) hk fun i hi => ih i hi (Nat.lt_trans hi hj)
      obtain ⟨t, ht, hthrew, htdone⟩ := reject hs hpc (by omega)
        fun hp => absurd (hdone ▸ hp) hneg
      have hover := over_of_endsIn h0 h ht (by simp [State.report, hthrew])
      omega
  obtain ⟨s, hs, hpc, hdone⟩ := exists_done submited blocks
    (Nat.le_refl k) hk hpos
  by_cases hlt : k < total
  · obtain ⟨t, ht, hthrew, _⟩ := reject hs hpc (hdone ▸ hlt) fun _ => by
      rw [if_neg (by omega)]
      decide
    obtain ⟨_, hsubmited, htpc⟩ := over_of_endsIn h0 h ht (by simp [State.report, hthrew])
    have hrise : rise = true := by
      by_contra hrise
      rw [hthrew, if_neg fun hc => hrise hc.2] at htpc
      exact absurd htpc (by simp)
    refine ⟨by omega, .inl hrise, hpos, fun _ hzero => ?_⟩
    -- `io_submit` is given nothing, and the call returns
    have hstep : step total s (.submit 0) =
        some { s with answers := s.answers ++ [0], pc := .returned 0 } := by
      rw [step, if_pos ⟨hpc, hdone ▸ hlt, .inr (.inr ⟨hdone ▸ hzero, rfl⟩)⟩]
      rfl
    have hok : Accepts total k s (.submit 0) := fun hp => by
      rw [hdone, hzero] at hp
      exact absurd hp (by decide)
    have hreached := Machine.ReachableWith.step hs hok hstep
    have hend := (over_of_endsIn h0 h hreached (by simp [State.report])).2.2
    rw [if_pos ⟨hlt, hrise⟩] at hend
    exact absurd hend (by simp)
  · have hge : ¬ s.done < total := hdone ▸ hlt
    have hstep : step total s .leave = some { s with pc := .returned s.done } := if_pos ⟨hpc, hge⟩
    have hreached := Machine.ReachableWith.step hs (show Accepts total k s .leave from trivial) hstep
    have hsubmited := (over_of_endsIn h0 h hreached (by simp [State.report])).2.1
    exact ⟨by omega, .inr (by omega), hpos, fun hlt' => absurd hlt' hlt⟩

end LinuxFile

/-! ### Windows -/

namespace WindowsFile

variable {total k submited : Nat} {rise : Bool} {s t : Batch}

theorem noShortage_of_accepts {a : Action} (h : Accepts k s a) : NoShortage s a := by
  rintro rfl
  have heq : Answer.shortage = if s.c < k then .accepted else .rejected := h
  split at heq <;> exact absurd heq (by decide)

def PcOk (total k c : Nat) (riseExOnError : Bool) : BatchPc → Prop
  | .issue => c ≤ k
  | .shortage => False
  | .failing => c = k ∧ k < total
  | .finishing => c = k ∧ k = total
  | .returned count => count = k ∧ c = k ∧ ¬ (k < total ∧ riseExOnError)
  | .threw => c = k ∧ k < total ∧ riseExOnError

theorem pcOk_fail (hc : s.c = k) (hlt : k < total) :
    PcOk total k (s.fail rise).c rise (s.fail rise).pc := by
  cases rise with
  | true => exact ⟨hc, hlt, rfl⟩
  | false => exact ⟨hc, hc, fun h => absurd h.2 (by decide)⟩

theorem pcOk_of_reachable (hk : k ≤ total)
    (h : (batch submited total rise).ReachableWith (Accepts k) s) : PcOk total k s.c rise s.pc := by
  refine h.invariant (P := fun s => PcOk total k s.c rise s.pc)
    (show PcOk total k 0 rise .issue from Nat.zero_le k) fun s a t hi hok hs => ?_
  cases a with
  | issue answer =>
    simp only [batch, batchStep, Option.ite_none_right_eq_some, Option.some.injEq] at hs
    obtain ⟨⟨hpc, hlt⟩, rfl⟩ := hs
    rw [hpc] at hi
    have hle : s.c ≤ k := hi
    have hanswer : answer = if s.c < k then .accepted else .rejected := hok
    by_cases hc : s.c < k
    · rw [if_pos hc] at hanswer
      subst hanswer
      simp only [Batch.issue, hpc]
      exact hc
    · have heq : s.c = k := Nat.le_antisymm hle (Nat.le_of_not_lt hc)
      rw [if_neg hc] at hanswer
      subst hanswer
      simp only [Batch.issue]
      split
      · exact ⟨heq, heq ▸ hlt⟩
      · exact pcOk_fail heq (heq ▸ hlt)
  | leave =>
    simp only [batch, batchStep, Option.ite_none_right_eq_some, Option.some.injEq] at hs
    obtain ⟨⟨hpc, hge⟩, rfl⟩ := hs
    rw [hpc] at hi
    have hle : s.c ≤ k := hi
    have hc : s.c = k := by omega
    exact ⟨hc, by omega⟩
  | poll op =>
    simp only [batch, batchStep, Option.ite_none_right_eq_some, Option.some.injEq] at hs
    obtain ⟨_, rfl⟩ := hs
    exact hi
  | finish =>
    simp only [batch, batchStep, Option.ite_none_right_eq_some, Option.some.injEq] at hs
    obtain ⟨_, rfl⟩ := hs
    exact hi
  | pick =>
    simp only [batch, batchStep, Option.ite_none_right_eq_some, Option.some.injEq] at hs
    obtain ⟨_, rfl⟩ := hs
    simp only [Batch.resumed]
    split
    · rename_i hpc
      rw [show s.pc = _ from hpc] at hi
      exact absurd hi id
    · rename_i hpc
      rw [show s.pc = _ from hpc] at hi
      exact pcOk_fail hi.1 hi.2
    · rename_i hpc
      rw [show s.pc = _ from hpc] at hi
      exact ⟨hi.1, hi.1, fun h => absurd h.1 (hi.2 ▸ Nat.lt_irrefl _)⟩
    · exact hi

/-- The steps left, at most: three for a block and two to end. -/
def measure (total : Nat) (s : Batch) : Nat :=
  match s.pc with
  | .issue => 3 * (total - s.c) + 2 * s.port.inFlight.length + s.port.buffer.length + 2
  | .shortage | .failing | .finishing => 2 * s.port.inFlight.length + s.port.buffer.length + 1
  | .returned _ | .threw => 2 * s.port.inFlight.length + s.port.buffer.length

theorem measure_fail : measure total (s.fail rise) =
    2 * s.port.inFlight.length + s.port.buffer.length := by
  cases rise <;> rfl

theorem measure_lt {a : Action} (h : BatchInv total s) (hok : Accepts k s a)
    (hs : batchStep total rise s a = some t) : measure total t < measure total s := by
  cases a with
  | issue answer =>
    simp only [batchStep, Option.ite_none_right_eq_some, Option.some.injEq] at hs
    obtain ⟨⟨hpc, hlt⟩, rfl⟩ := hs
    have hbefore : measure total s =
        3 * (total - s.c) + 2 * s.port.inFlight.length + s.port.buffer.length + 2 := by
      rw [measure, hpc]
    cases answer with
    | accepted =>
      simp only [Batch.issue, measure, Port.accept, hpc, List.length_append, List.length_singleton]
      omega
    | shortage => exact absurd rfl (noShortage_of_accepts hok)
    | rejected =>
      simp only [Batch.issue]
      split
      · show 2 * s.port.inFlight.length + s.port.buffer.length + 1 < _
        omega
      · rw [measure_fail]
        omega
  | leave =>
    simp only [batchStep, Option.ite_none_right_eq_some, Option.some.injEq] at hs
    obtain ⟨⟨hpc, _⟩, rfl⟩ := hs
    show 2 * s.port.inFlight.length + s.port.buffer.length + 1 < _
    rw [measure, hpc]
    show _ < 3 * (total - s.c) + 2 * s.port.inFlight.length + s.port.buffer.length + 2
    omega
  | poll op =>
    simp only [batchStep, Option.ite_none_right_eq_some, Option.some.injEq] at hs
    obtain ⟨⟨_, hmem⟩, rfl⟩ := hs
    have hlen := List.length_erase_add_one hmem
    cases hpc : s.pc <;>
      simp only [measure, Port.poll, hpc, List.length_append, List.length_singleton] <;> omega
  | finish =>
    simp only [batchStep, Option.ite_none_right_eq_some, Option.some.injEq] at hs
    obtain ⟨⟨_, hbuffer⟩, rfl⟩ := hs
    have hpos : 0 < s.port.buffer.length := List.length_pos_iff.mpr hbuffer
    cases hpc : s.pc <;> simp only [measure, Port.finish, hpc, List.length_tail] <;> omega
  | pick =>
    simp only [batchStep, Option.ite_none_right_eq_some, Option.some.injEq] at hs
    obtain ⟨hready, rfl⟩ := hs
    rcases h with ⟨_, _, hport⟩ | ⟨hpc | hpc, _⟩ | ⟨_, _, _, hfiber, _⟩
    · rw [hport] at hready
      exact absurd hready (by simp [FiberIoMessage.create])
    · simp only [Batch.resumed, hpc.1]
      rw [measure_fail, measure, hpc.1]
      exact Nat.lt_succ_self _
    · simp only [Batch.resumed, hpc.1]
      rw [measure, measure, hpc.1]
      exact Nat.lt_succ_self _
    · rw [hready] at hfiber
      exact absurd hfiber (by decide)

theorem progress (h : BatchInv total s) (hreport : s.report = none) :
    ∃ a t, Accepts k s a ∧ batchStep total rise s a = some t := by
  rcases h with ⟨hpc, _, _⟩ | ⟨hpc, hcounting⟩ | ⟨hpc, _⟩
  · by_cases hlt : s.c < total
    · exact ⟨.issue (if s.c < k then .accepted else .rejected), _, rfl, if_pos ⟨hpc, hlt⟩⟩
    · exact ⟨.leave, _, trivial, if_pos ⟨hpc, hlt⟩⟩
  · have hne : s.pc ≠ .issue := by
      rintro he
      rcases hpc with ⟨hpc, _⟩ | ⟨hpc, _⟩ <;> rw [he] at hpc <;> exact absurd hpc (by decide)
    rcases hcounting.phase with ⟨_, _, hpos⟩ | ⟨hready, _⟩
    · rw [Port.outstanding] at hpos
      by_cases hbuffer : s.port.buffer = []
      · rw [hbuffer, List.length_nil, Nat.add_zero] at hpos
        obtain ⟨op, hmem⟩ := List.exists_mem_of_length_pos hpos
        exact ⟨.poll op, _, trivial, if_pos ⟨hne, hmem⟩⟩
      · exact ⟨.finish, _, trivial, if_pos ⟨hne, hbuffer⟩⟩
    · exact ⟨.pick, _, trivial, if_pos hready⟩
  · cases hs : s.pc with
    | returned c => simp [Batch.report, hs] at hreport
    | threw => simp [Batch.report, hs] at hreport
    | _ => rw [hs] at hpc; exact absurd hpc (by decide)

theorem report_eq {r : Report} (h : BatchInv total s) (hr : s.report = some r) :
    r = ⟨r.ending, s.c, s.c, 0⟩ ∧
      s.pc = match r.ending with | .returned c => .returned c | .threw => .threw := by
  rcases h with ⟨hpc, _, _⟩ | ⟨hpc, _⟩ | ⟨_, _, hzero, _, hsubmited, _⟩
  · simp [Batch.report, hpc] at hr
  · rcases hpc with ⟨hpc, _⟩ | ⟨hpc, _⟩ <;> simp [Batch.report, hpc] at hr
  · cases hs : s.pc with
    | returned c =>
      simp only [Batch.report, hs, Option.some.injEq] at hr
      rw [← hr, hsubmited, hzero]
      exact ⟨rfl, rfl⟩
    | threw =>
      simp only [Batch.report, hs, Option.some.injEq] at hr
      rw [← hr, hsubmited, hzero]
      exact ⟨rfl, rfl⟩
    | _ => simp [Batch.report, hs] at hr

theorem endsIn_expected (h0 : 0 < total) (hk : k ≤ total) :
    (batch submited total rise).EndsIn (Accepts k) Batch.report (expected total k rise) := by
  have hinv : ∀ s, (batch submited total rise).ReachableWith (Accepts k) s → BatchInv total s :=
    fun s hs => BatchInv.of_reachable h0 (hs.mono fun _ _ => noShortage_of_accepts)
  refine ⟨fun s hs r hr => ?_, fun s hs => progress (hinv s hs), measure total,
    fun s a t hs hok => measure_lt (hinv s hs) hok⟩
  obtain ⟨hreport, hpc⟩ := report_eq (hinv s hs) hr
  have hok := pcOk_of_reachable hk hs
  rw [hpc] at hok
  rw [hreport, expected]
  cases hending : r.ending with
  | returned c =>
    rw [hending] at hok
    obtain ⟨hc, hsc, hnot⟩ := hok
    rw [if_neg hnot, hc, hsc]
  | threw =>
    rw [hending] at hok
    obtain ⟨hsc, hthrow⟩ := hok
    rw [if_pos hthrow, hsc]

/-- A call on the empty batch does not end. -/
theorem not_endsIn_empty {r : Report} : ¬ (batch submited 0 rise).EndsIn (Accepts 0) Batch.report r := by
  intro h
  have hstep : batchStep 0 rise ⟨.create, 0, submited, .issue⟩ .leave =
      some ⟨(Port.create.setCount 0).waitFor 0, 0, submited, .finishing⟩ := rfl
  have hreached : (batch submited 0 rise).ReachableWith (Accepts 0) _ :=
    .step .start (show Accepts 0 (batch submited 0 rise).start .leave from trivial) hstep
  obtain ⟨a, t, _, ht⟩ := h.progress _ hreached rfl
  cases a with
  | issue answer => exact absurd ht (by simp [batch, batchStep])
  | leave => exact absurd ht (by simp [batch, batchStep])
  | poll op => exact absurd ht (by simp [batch, batchStep, Port.create, Port.setCount, Port.waitFor])
  | finish => exact absurd ht (by simp [batch, batchStep, Port.create, Port.setCount, Port.waitFor])
  | pick => exact absurd ht (by
      simp [batch, batchStep, Port.create, Port.setCount, Port.waitFor, FiberIoMessage.waitFor])

end WindowsFile

/-! ### Both implementations -/

/-- On a fresh batch of some blocks that fit, both implementations report the accepted prefix, and so
if no error is to be suppressed; in all other cases one of them does not. -/
theorem process_batch_reports {total k submited : Nat} {blocks : Nat → LinuxFile.Outcome} {rise : Bool}
    (hsize : total < 18446744073709551616) (h0 : submited < 18446744073709551616) (hk : k ≤ total) :
    (LinuxFile.machine submited blocks total).EndsIn (LinuxFile.Accepts total k)
          LinuxFile.State.report (expected total k rise) ∧
        (WindowsFile.batch submited total rise).EndsIn (WindowsFile.Accepts k)
          WindowsFile.Batch.report (expected total k rise) ↔
      0 < total ∧ submited = 0 ∧ (rise = true ∨ k = total) ∧ LinuxFile.Submittable total k := by
  constructor
  · rintro ⟨hlinux, hwindows⟩
    refine ⟨?_, LinuxFile.of_endsIn h0 hk hlinux⟩
    by_contra hempty
    have htotal : total = 0 := Nat.eq_zero_of_not_pos hempty
    subst htotal
    have hzero : k = 0 := Nat.le_zero.mp hk
    subst hzero
    exact WindowsFile.not_endsIn_empty hwindows
  · rintro ⟨hpos, rfl, hrise, hfits⟩
    exact ⟨LinuxFile.endsIn_expected hsize hk hrise hfits, WindowsFile.endsIn_expected hpos hk⟩

/-- The second of three blocks is rejected, and the error is thrown. -/
theorem process_batch_reports_three : expected 3 1 true = ⟨.threw, 1, 1, 0⟩ ∧
    (LinuxFile.machine 0 (fun _ => ⟨0, 0⟩) 3).EndsIn (LinuxFile.Accepts 3 1)
        LinuxFile.State.report (expected 3 1 true) ∧
      (WindowsFile.batch 0 3 true).EndsIn (WindowsFile.Accepts 1) WindowsFile.Batch.report
        (expected 3 1 true) :=
  ⟨rfl, (process_batch_reports (by decide) (by decide) (by decide)).mpr
    ⟨by decide, rfl, .inl rfl, LinuxFile.submittable_of_lt (by decide) (by decide)⟩⟩

/-- Linux throws although errors are to be suppressed, and counts on in a batch that has been used;
Windows does not return from the empty batch. -/
theorem process_batch_differs :
    ¬ (LinuxFile.machine 0 (fun _ => ⟨0, 0⟩) 2).EndsIn (LinuxFile.Accepts 2 1)
        LinuxFile.State.report (expected 2 1 false) ∧
      ¬ (LinuxFile.machine 1 (fun _ => ⟨0, 0⟩) 1).EndsIn (LinuxFile.Accepts 1 1)
        LinuxFile.State.report (expected 1 1 true) ∧
      ¬ (WindowsFile.batch 0 0 false).EndsIn (WindowsFile.Accepts 0) WindowsFile.Batch.report
        (expected 0 0 false) := by
  refine ⟨fun h => ?_, fun h => ?_, WindowsFile.not_endsIn_empty⟩
  · obtain ⟨s, hs, hr⟩ : ∃ s, ((LinuxFile.machine 0 (fun _ => ⟨0, 0⟩) 2).guarded fun s a =>
        decide (LinuxFile.Accepts 2 1 s a)).exec (LinuxFile.initial 0 (fun _ => ⟨0, 0⟩) 2)
          [.submit 1, .poll 0 ⟨512, 0⟩, .finish, .pick, .submit (-1)] = some s ∧
        s.report = some ⟨.threw, 1, 1, 0⟩ := ⟨_, rfl, rfl⟩
    have hreached := (Machine.reachableWith_of_exec hs).mono fun _ _ => of_decide_eq_true
    exact absurd (h.same s hreached _ hr) (by decide)
  · obtain ⟨s, hs, hr⟩ : ∃ s, ((LinuxFile.machine 1 (fun _ => ⟨0, 0⟩) 1).guarded fun s a =>
        decide (LinuxFile.Accepts 1 1 s a)).exec (LinuxFile.initial 1 (fun _ => ⟨0, 0⟩) 1)
          [.submit 1, .poll 0 ⟨512, 0⟩, .finish, .pick, .leave] = some s ∧
        s.report = some ⟨.returned 1, 2, 1, 0⟩ := ⟨_, rfl, rfl⟩
    have hreached := (Machine.reachableWith_of_exec hs).mono fun _ _ => of_decide_eq_true
    exact absurd (h.same s hreached _ hr) (by decide)

end Dumbo.Reactor
