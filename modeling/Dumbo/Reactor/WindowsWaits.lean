import Dumbo.Reactor.WindowsFile
import Mathlib.Data.List.Range

/-!
# The waits of Windows file operations

While the system is not short of resources a call waits at most once, with the counter at the number
of its accepted operations, and nothing has been polled before.
-/

namespace Dumbo.Reactor.WindowsFile

open Transition

/-- Every wait has been entered with something to wait for and the right counter. -/
structure Port.Sound (p : Port) : Prop where
  waits : ∀ w ∈ p.waits, 0 < w.outstanding ∧ w.count = w.meant
  wrapped : p.wrapped = 0
  fault : p.message.fault = false

def BatchPc.final : BatchPc → Bool
  | .returned _ | .threw => true
  | _ => false

/-- The condition on a step: the system is not short of resources. -/
def NoShortage {σ : Type} (_ : σ) (a : Action) : Prop :=
  a ≠ .issue .shortage

instance {σ : Type} (s : σ) (a : Action) : Decidable (NoShortage s a) :=
  inferInstanceAs (Decidable (a ≠ _))

/-- A fiber in its only wait, or resumed from it: the counter is the number of operations that are
to finish. -/
structure Port.Counting (p : Port) : Prop where
  sound : p.Sound
  phase : p.message.fiber = .waiting ∧ p.message.count = p.outstanding ∧ 0 < p.outstanding ∨
    p.message.fiber = .ready ∧ p.outstanding = 0

variable {p : Port}

theorem Port.outstanding_poll {op : Nat} (h : op ∈ p.inFlight) :
    (p.poll op).outstanding = p.outstanding := by
  have hlen := List.length_erase_add_one h
  show (p.inFlight.erase op).length + (p.buffer ++ [op]).length = p.inFlight.length + p.buffer.length
  rw [List.length_append, List.length_singleton]
  omega

theorem Port.outstanding_finish (h : p.buffer ≠ []) : p.finish.outstanding + 1 = p.outstanding := by
  show p.inFlight.length + p.buffer.tail.length + 1 = p.inFlight.length + p.buffer.length
  have hpos : 0 < p.buffer.length := List.length_pos_iff.mpr h
  rw [List.length_tail]
  omega

theorem Port.Counting.poll {op : Nat} (h : p.Counting) (hop : op ∈ p.inFlight) :
    (p.poll op).Counting := by
  refine ⟨⟨h.sound.waits, h.sound.wrapped, h.sound.fault⟩, ?_⟩
  rw [Port.outstanding_poll hop]
  exact h.phase

theorem Port.Counting.finish (h : p.Counting) (hbuffer : p.buffer ≠ []) : p.finish.Counting := by
  have hout := Port.outstanding_finish hbuffer
  rcases h.phase with ⟨hfiber, hcount, hpos⟩ | ⟨_, hzero⟩
  · have hne : p.message.count ≠ 0 := by omega
    have hwrapped : p.finish.wrapped = 0 := by
      show (if p.message.count = 0 then p.wrapped + 1 else p.wrapped) = 0
      rw [if_neg hne]
      exact h.sound.wrapped
    have hdecrement : decrement p.message.count = p.finish.outstanding := by
      rw [decrement, if_neg hne]
      omega
    have hmessage : p.finish.message = p.message.finish := rfl
    by_cases hlast : p.finish.outstanding = 0
    · -- the last packet resumes the fiber
      have hready : p.message.finish = ⟨0, .ready, p.message.fault⟩ := by
        simp only [FiberIoMessage.finish, FiberIoMessage.resume, hdecrement, hlast, hfiber, if_true]
      refine ⟨⟨h.sound.waits, hwrapped, ?_⟩, .inr ⟨?_, hlast⟩⟩
      · rw [hmessage, hready]
        exact h.sound.fault
      · rw [hmessage, hready]
    · have hstay : p.message.finish = ⟨p.finish.outstanding, .waiting, p.message.fault⟩ := by
        simp only [FiberIoMessage.finish, hdecrement, if_neg hlast, hfiber]
      refine ⟨⟨h.sound.waits, hwrapped, ?_⟩, .inl ⟨?_, ?_, Nat.pos_of_ne_zero hlast⟩⟩
      · rw [hmessage, hstay]
        exact h.sound.fault
      · rw [hmessage, hstay]
      · rw [hmessage, hstay]
  · omega

/-- A wait with a counter that fits. -/
theorem Port.Counting.enter {meant : Nat} (hwaits : p.waits = []) (hwrapped : p.wrapped = 0)
    (hfault : p.message.fault = false) (hcount : p.message.count = p.outstanding)
    (hmeant : meant = p.outstanding) (hpos : 0 < p.outstanding) : (p.waitFor meant).Counting := by
  refine ⟨⟨fun w hw => ?_, hwrapped, hfault⟩, .inl ⟨rfl, hcount, hpos⟩⟩
  have hw' : w ∈ p.waits ++ [⟨p.message.count, p.outstanding, meant⟩] := hw
  rw [hwaits, List.nil_append, List.mem_singleton] at hw'
  subst hw'
  exact ⟨hpos, hcount.trans hmeant.symm⟩

theorem Port.Counting.pick (h : p.Counting) (hready : p.message.fiber = .ready) :
    p.pick.Sound ∧ p.pick.outstanding = 0 := by
  refine ⟨⟨h.sound.waits, h.sound.wrapped, h.sound.fault⟩, ?_⟩
  rcases h.phase with ⟨hwaiting, _⟩ | ⟨_, hzero⟩
  · rw [hready] at hwaiting
    exact absurd hwaiting (by decide)
  · exact hzero

/-! ### The invariant of a batch without shortages -/

inductive BatchInv (total : Nat) (s : Batch) : Prop
  | issuing (hpc : s.pc = .issue) (hc : s.c ≤ total)
      (hport : s.port = ⟨.create 1, List.range' 0 s.c, [], [], 0⟩)
  | waiting (hpc : s.pc = .failing ∧ s.c < total ∨ s.pc = .finishing ∧ s.c = total)
      (hcounting : s.port.Counting)
  | done (hpc : s.pc.final = true) (hsound : s.port.Sound) (hzero : s.port.outstanding = 0)
      (hfiber : s.port.message.fiber = .running) (hsubmited : s.submited = s.c) (hc : s.c ≤ total)

variable {total submited : Nat} {rise : Bool} {s t : Batch}

theorem Batch.fail_inv (hsound : s.port.Sound) (hzero : s.port.outstanding = 0)
    (hfiber : s.port.message.fiber = .running) (hc : s.c ≤ total) :
    BatchInv total (s.fail rise) := by
  refine .done ?_ hsound hzero hfiber rfl hc
  cases rise <;> rfl

theorem BatchInv.enter (hport : s.port = ⟨.create 1, List.range' 0 s.c, [], [], 0⟩) (hpos : 0 < s.c) :
    ((s.port.setCount s.c).waitFor s.port.outstanding).Counting := by
  have hout : (s.port.setCount s.c).outstanding = s.c := by
    rw [hport]
    exact List.length_range'
  have hsame : s.port.outstanding = (s.port.setCount s.c).outstanding := rfl
  refine Port.Counting.enter ?_ ?_ ?_ hout.symm hsame ?_
  · rw [hport]
    rfl
  · rw [hport]
    rfl
  · rw [hport]
    rfl
  · rw [hout]
    exact hpos

theorem BatchInv.step {a : Action} (h0 : 0 < total) (h : BatchInv total s) (hok : NoShortage s a)
    (hs : batchStep total rise s a = some t) : BatchInv total t := by
  rcases h with ⟨hpc, hc, hport⟩ | ⟨hpc, hcounting⟩ | ⟨hpc, hsound, hzero, hfiber, hsubmited, hc⟩
  · cases a with
    | issue answer =>
      rw [batchStep, Option.ite_none_right_eq_some, Option.some.injEq] at hs
      obtain ⟨⟨_, hlt⟩, rfl⟩ := hs
      cases answer with
      | accepted =>
        refine .issuing hpc hlt ?_
        simp only [Batch.issue, Port.accept, hport]
        rw [List.range'_1_concat, Nat.zero_add]
      | shortage => exact absurd rfl hok
      | rejected =>
        by_cases hpos : 0 < s.c
        · simp only [Batch.issue, if_pos hpos]
          exact .waiting (.inl ⟨rfl, hlt⟩) (BatchInv.enter hport hpos)
        · have hzero : s.c = 0 := Nat.eq_zero_of_not_pos hpos
          simp only [Batch.issue, if_neg hpos]
          rw [hzero] at hport
          refine Batch.fail_inv ?_ ?_ ?_ hc
          · rw [hport]
            exact ⟨by simp, rfl, rfl⟩
          · rw [hport]
            rfl
          · rw [hport]
            rfl
    | leave =>
      rw [batchStep, Option.ite_none_right_eq_some, Option.some.injEq] at hs
      obtain ⟨⟨_, hge⟩, rfl⟩ := hs
      have heq : s.c = total := Nat.le_antisymm hc (Nat.le_of_not_lt hge)
      exact .waiting (.inr ⟨rfl, heq⟩) (BatchInv.enter hport (heq ▸ h0))
    | poll op => simp [batchStep, hpc] at hs
    | finish => simp [batchStep, hpc] at hs
    | pick => simp [batchStep, hport, FiberIoMessage.create] at hs
  · have hne : s.pc ≠ .issue := by
      rintro he
      rcases hpc with ⟨hpc, _⟩ | ⟨hpc, _⟩ <;> rw [he] at hpc <;> exact absurd hpc (by decide)
    cases a with
    | issue answer => simp [batchStep, hne] at hs
    | leave => simp [batchStep, hne] at hs
    | poll op =>
      rw [batchStep, Option.ite_none_right_eq_some, Option.some.injEq] at hs
      obtain ⟨⟨_, hop⟩, rfl⟩ := hs
      exact .waiting hpc (hcounting.poll hop)
    | finish =>
      rw [batchStep, Option.ite_none_right_eq_some, Option.some.injEq] at hs
      obtain ⟨⟨_, hbuffer⟩, rfl⟩ := hs
      exact .waiting hpc (hcounting.finish hbuffer)
    | pick =>
      rw [batchStep, Option.ite_none_right_eq_some, Option.some.injEq] at hs
      obtain ⟨hready, rfl⟩ := hs
      obtain ⟨hsound, hzero⟩ := hcounting.pick hready
      rcases hpc with ⟨hpc, hlt⟩ | ⟨hpc, heq⟩
      · simp only [Batch.resumed, hpc]
        exact Batch.fail_inv hsound hzero rfl (Nat.le_of_lt hlt)
      · simp only [Batch.resumed, hpc]
        exact .done rfl hsound hzero rfl rfl (Nat.le_of_eq heq)
  · have hne : s.pc ≠ .issue := by
      intro he
      rw [he] at hpc
      exact absurd hpc (by decide)
    have hnil : s.port.inFlight = [] ∧ s.port.buffer = [] := by
      rw [Port.outstanding] at hzero
      exact ⟨List.eq_nil_of_length_eq_zero (by omega), List.eq_nil_of_length_eq_zero (by omega)⟩
    cases a with
    | issue answer => simp [batchStep, hne] at hs
    | leave => simp [batchStep, hne] at hs
    | poll op => simp [batchStep, hnil] at hs
    | finish => simp [batchStep, hnil] at hs
    | pick => simp [batchStep, hfiber] at hs

theorem BatchInv.start : BatchInv total (batch submited total rise).start :=
  .issuing rfl (Nat.zero_le _) rfl

theorem BatchInv.of_reachable (h0 : 0 < total)
    (h : (batch submited total rise).ReachableWith NoShortage s) : BatchInv total s :=
  h.invariant (P := BatchInv total) .start fun _ _ _ hi hok hs => hi.step h0 hok hs

theorem BatchInv.sound (h : BatchInv total s) :
    s.port.Sound ∧ (s.pc.final = true → s.port.outstanding = 0) := by
  rcases h with ⟨hpc, _, hport⟩ | ⟨hpc, hcounting⟩ | ⟨_, hsound, hzero, _, _, _⟩
  · refine ⟨?_, fun hf => absurd hf (by rw [hpc]; decide)⟩
    rw [hport]
    exact ⟨by simp, rfl, rfl⟩
  · refine ⟨hcounting.sound, fun hf => ?_⟩
    rcases hpc with ⟨hpc, _⟩ | ⟨hpc, _⟩ <;> rw [hpc] at hf <;> exact absurd hf (by decide)
  · exact ⟨hsound, fun _ => hzero⟩

/-! ### Single operations -/

inductive SingleInv (s : Single) : Prop
  | issuing (hpc : s.pc = .issue) (hport : s.port = .create)
  | waiting (hpc : s.pc = .waiting) (hcounting : s.port.Counting)
  | done (hpc : s.pc = .returned ∨ s.pc = .terminated) (hsound : s.port.Sound)
      (hzero : s.port.outstanding = 0) (hfiber : s.port.message.fiber = .running)

variable {u v : Single}

theorem SingleInv.step {a : Action} (h : SingleInv u) (hok : NoShortage u a)
    (hs : singleStep u a = some v) : SingleInv v := by
  rcases h with ⟨hpc, hport⟩ | ⟨hpc, hcounting⟩ | ⟨hpc, hsound, hzero, hfiber⟩
  · cases a with
    | issue answer =>
      rw [singleStep, Option.ite_none_right_eq_some, Option.some.injEq] at hs
      obtain ⟨_, rfl⟩ := hs
      cases answer with
      | accepted =>
        refine .waiting rfl ?_
        simp only [Single.issue, hport]
        exact Port.Counting.enter rfl rfl rfl rfl rfl (by decide)
      | shortage => exact absurd rfl hok
      | rejected =>
        refine .done (.inr rfl) ?_ ?_ ?_
        · simp only [Single.issue, hport]
          exact ⟨by simp [Port.create], rfl, rfl⟩
        · simp only [Single.issue, hport]
          rfl
        · simp only [Single.issue, hport]
          rfl
    | leave => simp [singleStep] at hs
    | poll op => simp [singleStep, hpc] at hs
    | finish => simp [singleStep, hpc] at hs
    | pick => simp [singleStep, hport, Port.create, FiberIoMessage.create] at hs
  · cases a with
    | issue answer => simp [singleStep, hpc] at hs
    | leave => simp [singleStep] at hs
    | poll op =>
      rw [singleStep, Option.ite_none_right_eq_some, Option.some.injEq] at hs
      obtain ⟨⟨_, hop⟩, rfl⟩ := hs
      exact .waiting hpc (hcounting.poll hop)
    | finish =>
      rw [singleStep, Option.ite_none_right_eq_some, Option.some.injEq] at hs
      obtain ⟨⟨_, hbuffer⟩, rfl⟩ := hs
      exact .waiting hpc (hcounting.finish hbuffer)
    | pick =>
      rw [singleStep, Option.ite_none_right_eq_some, Option.some.injEq] at hs
      obtain ⟨hready, rfl⟩ := hs
      obtain ⟨hsound, hzero⟩ := hcounting.pick hready
      simp only [Single.resumed, hpc]
      exact .done (.inl rfl) hsound hzero rfl
  · have hne : u.pc ≠ .issue := by
      rintro he
      rcases hpc with hpc | hpc <;> rw [he] at hpc <;> exact absurd hpc (by decide)
    have hnil : u.port.inFlight = [] ∧ u.port.buffer = [] := by
      rw [Port.outstanding] at hzero
      exact ⟨List.eq_nil_of_length_eq_zero (by omega), List.eq_nil_of_length_eq_zero (by omega)⟩
    cases a with
    | issue answer => simp [singleStep, hne] at hs
    | leave => simp [singleStep] at hs
    | poll op => simp [singleStep, hnil] at hs
    | finish => simp [singleStep, hnil] at hs
    | pick => simp [singleStep, hfiber] at hs

theorem SingleInv.of_reachable (h : single.ReachableWith NoShortage u) : SingleInv u :=
  h.invariant (P := SingleInv) (.issuing rfl rfl) fun _ _ _ hi hok hs => hi.step hok hs

theorem SingleInv.sound (h : SingleInv u) :
    u.port.Sound ∧ (u.pc = .returned ∨ u.pc = .terminated → u.port.outstanding = 0) := by
  rcases h with ⟨hpc, hport⟩ | ⟨hpc, hcounting⟩ | ⟨_, hsound, hzero, _⟩
  · rw [hport]
    exact ⟨⟨by simp [Port.create], rfl, rfl⟩, fun _ => rfl⟩
  · refine ⟨hcounting.sound, fun hf => ?_⟩
    rw [hpc] at hf
    exact absurd hf (by decide)
  · exact ⟨hsound, fun _ => hzero⟩

/-! ### Waiting for something -/

/-- Without a shortage of resources, the calls on a batch that is not empty and the single calls wait
only for operations that are to finish, with the counter that fits, and return when all have
finished. -/
theorem windows_waits (h0 : 0 < total) (hs : (batch submited total rise).ReachableWith NoShortage s)
    (hu : single.ReachableWith NoShortage u) :
    (s.port.Sound ∧ (s.pc.final = true → s.port.outstanding = 0)) ∧
      u.port.Sound ∧ (u.pc = .returned ∨ u.pc = .terminated → u.port.outstanding = 0) :=
  ⟨(BatchInv.of_reachable h0 hs).sound, (SingleInv.of_reachable hu).sound⟩

/-- A batch of two blocks, the second one finished first, and a read. -/
theorem windows_waits_two : ∃ (s : Batch) (u : Single), s.pc = .returned 2 ∧ u.pc = .returned ∧
    (s.port.Sound ∧ (s.pc.final = true → s.port.outstanding = 0)) ∧
      u.port.Sound ∧ (u.pc = .returned ∨ u.pc = .terminated → u.port.outstanding = 0) := by
  obtain ⟨s, hs, hpc⟩ : ∃ s, ((batch 0 2 true).guarded fun s a => decide (NoShortage s a)).exec
      (batch 0 2 true).start [.issue .accepted, .issue .accepted, .leave, .poll 1, .finish, .poll 0,
        .finish, .pick] = some s ∧ s.pc = .returned 2 := ⟨_, rfl, rfl⟩
  obtain ⟨u, hu, hpc'⟩ : ∃ u, (single.guarded fun s a => decide (NoShortage s a)).exec
      single.start [.issue .accepted, .poll 0, .finish, .pick] = some u ∧ u.pc = .returned :=
    ⟨_, rfl, rfl⟩
  exact ⟨s, u, hpc, hpc', windows_waits (by decide)
    ((Machine.reachableWith_of_exec hs).mono fun _ _ => of_decide_eq_true)
    ((Machine.reachableWith_of_exec hu).mono fun _ _ => of_decide_eq_true)⟩

/-- The empty batch waits for nothing; so does a read that finds the system short of resources; and
after a shortage the last wait of a batch counts operations that have finished. -/
theorem windows_waits_for_nothing :
    (∃ s, (batch 0 0 false).Reachable s ∧ s.port.waits = [⟨0, 0, 0⟩] ∧ ¬ s.port.Sound) ∧
    (∃ u, single.Reachable u ∧ u.port.waits = [⟨1, 0, 1⟩] ∧ ¬ u.port.Sound) ∧
    ∃ s, (batch 0 2 false).Reachable s ∧ s.port.waits = [⟨1, 1, 1⟩, ⟨2, 1, 1⟩] ∧
      ¬ s.port.Sound := by
  refine ⟨?_, ?_, ?_⟩
  · obtain ⟨s, hs, hw⟩ : ∃ s, (batch 0 0 false).exec (batch 0 0 false).start [.leave] = some s ∧
        s.port.waits = [⟨0, 0, 0⟩] := ⟨_, rfl, rfl⟩
    refine ⟨s, Machine.reachable_of_exec hs, hw, fun hsound => ?_⟩
    have hpos := (hsound.waits ⟨0, 0, 0⟩ (by rw [hw]; exact List.mem_singleton_self _)).1
    exact absurd hpos (by decide)
  · obtain ⟨u, hu, hw⟩ : ∃ u, single.exec single.start [.issue .shortage] = some u ∧
        u.port.waits = [⟨1, 0, 1⟩] := ⟨_, rfl, rfl⟩
    refine ⟨u, Machine.reachable_of_exec hu, hw, fun hsound => ?_⟩
    have hpos := (hsound.waits ⟨1, 0, 1⟩ (by rw [hw]; exact List.mem_singleton_self _)).1
    exact absurd hpos (by decide)
  · obtain ⟨s, hs, hw⟩ : ∃ s, (batch 0 2 false).exec (batch 0 2 false).start
        [.issue .accepted, .issue .shortage, .poll 0, .finish, .pick, .issue .accepted, .leave] =
          some s ∧ s.port.waits = [⟨1, 1, 1⟩, ⟨2, 1, 1⟩] := ⟨_, rfl, rfl⟩
    refine ⟨s, Machine.reachable_of_exec hs, hw, fun hsound => ?_⟩
    have hcount := (hsound.waits ⟨2, 1, 1⟩ (by
      rw [hw]
      exact List.mem_cons_of_mem _ (List.mem_singleton_self _))).2
    exact absurd hcount (by decide)

end Dumbo.Reactor.WindowsFile
