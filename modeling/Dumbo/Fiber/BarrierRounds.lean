import Dumbo.Fiber.Barrier

/-!
# The rounds of a barrier
-/

namespace Dumbo.Fiber.Barrier

open Transition Monitored

variable {F : Type*} {n : Nat}

/-! ### Groups -/

theorem group_succ_of_last {k : Nat} (hn : 0 < n) (hk : k % n = n - 1) :
    group n (k + 1) = group n k + 1 ∧ (k + 1) % n = 0 := by
  refine (Nat.div_mod_unique hn).mpr ⟨?_, hn⟩
  have hdiv := Nat.div_add_mod k n
  rw [group, Nat.mul_add]
  omega

theorem group_succ {k : Nat} (hn : 0 < n) (hk : k % n ≠ n - 1) :
    group n (k + 1) = group n k ∧ (k + 1) % n = k % n + 1 := by
  have hlt := Nat.mod_lt k hn
  refine (Nat.div_mod_unique hn).mpr ⟨?_, by omega⟩
  have hdiv := Nat.div_add_mod k n
  rw [group]
  omega

/-- A group is complete when so many calls have arrived. -/
theorem group_lt_iff {k arrivals : Nat} (hn : 0 < n) :
    group n k < group n arrivals ↔ (group n k + 1) * n ≤ arrivals :=
  Nat.le_div_iff_mul_le hn

theorem lt_of_complete {k arrivals : Nat} (hn : 0 < n) (h : (group n k + 1) * n ≤ arrivals) :
    k < arrivals :=
  Nat.lt_of_lt_of_le (Nat.lt_mul_of_div_lt (Nat.lt_succ_self _) hn) h

/-! ### The counters -/

/-- What the counter and the cycle of a barrier tell about the calls so far. -/
structure Good (n : Nat) (b : Barrier) : Prop where
  initial : b.initial = n
  current : b.current = n - b.arrivals % n
  cycle : b.cycle = decide (group n b.arrivals % 2 = 0)

structure Waits (n : Nat) (l : Local) (b : Barrier) : Prop where
  arrived : l.ticket < b.arrivals
  last : l.ticket % n ≠ n - 1
  cycle : l.cycle = decide (group n l.ticket % 2 = 0)

/-- The group of the call is not complete. -/
def Incomplete (n : Nat) (l : Local) (b : Barrier) : Prop := group n b.arrivals = group n l.ticket

theorem Good.create {b : Barrier} (hb : Barrier.create n = some b) :
    0 < n ∧ Good n b ∧ b.arrivals = 0 := by
  simp only [Barrier.create, Option.ite_none_left_eq_some, Option.some.injEq] at hb
  obtain ⟨hn, rfl⟩ := hb
  exact ⟨Nat.pos_of_ne_zero hn, ⟨rfl, by simp, by simp [group]⟩, rfl⟩

theorem Good.last_iff {b : Barrier} (hn : 0 < n) (h : Good n b) :
    b.current - 1 = 0 ↔ b.arrivals % n = n - 1 := by
  have hlt := Nat.mod_lt b.arrivals hn
  rw [h.current]
  omega

theorem arrivals_enter (b : Barrier) : b.enter.1.arrivals = b.arrivals + 1 := by
  rw [Barrier.enter]
  split_ifs <;> rfl

theorem Good.enter_last {b : Barrier} (hn : 0 < n) (h : Good n b) (hlast : b.arrivals % n = n - 1) :
    b.enter.2 = .returns ⟨b.arrivals, true, b.arrivals + 1⟩ true ∧ Good n b.enter.1 := by
  obtain ⟨hgroup, hmod⟩ := group_succ_of_last hn hlast
  rw [Barrier.enter]
  simp only [(h.last_iff hn).mpr hlast, if_true]
  refine ⟨trivial, h.initial, ?_, ?_⟩
  · rw [hmod, Nat.sub_zero]
    exact h.initial
  · rw [hgroup, h.cycle]
    by_cases heven : group n b.arrivals % 2 = 0
    · simp [heven, Nat.add_mod]
    · have hodd : group n b.arrivals % 2 = 1 := by omega
      simp [hodd, Nat.add_mod]

theorem Good.enter_waits {b : Barrier} (hn : 0 < n) (h : Good n b) (hlast : b.arrivals % n ≠ n - 1) :
    b.enter.2 = .waits ⟨b.cycle, b.arrivals⟩ ∧ Good n b.enter.1 := by
  obtain ⟨hgroup, hmod⟩ := group_succ hn hlast
  have hne : b.current - 1 ≠ 0 := fun he => hlast ((h.last_iff hn).mp he)
  rw [Barrier.enter]
  simp only [hne, if_false]
  refine ⟨trivial, h.initial, ?_, ?_⟩
  · show b.current - 1 = n - (b.arrivals + 1) % n
    rw [hmod, h.current]
    exact Nat.sub_sub _ _ _
  · rw [hgroup]
    exact h.cycle

theorem laws (hn : 0 < n) : Laws wait (Good n) (Waits n) (Incomplete n) := by
  have hgood : ∀ b : Barrier, Good n b → Good n b.enter.1 := fun b h => by
    by_cases hlast : b.arrivals % n = n - 1
    · exact (h.enter_last hn hlast).2
    · exact (h.enter_waits hn hlast).2
  refine ⟨fun _ b h => hgood b h, fun _ _ _ h => h, fun _ b l h hout => ?_, fun _ b l _ hV => ?_,
    fun _ _ _ _ _ hV => hV, fun _ b l h _ hW hnot => ?_, fun _ _ _ _ _ hW => hW⟩
  · by_cases hlast : b.arrivals % n = n - 1
    · rw [show (wait.enter () b).2 = b.enter.2 from rfl, (h.enter_last hn hlast).1] at hout
      exact absurd hout (by simp)
    · rw [show (wait.enter () b).2 = b.enter.2 from rfl, (h.enter_waits hn hlast).1,
        Outcome.waits.injEq] at hout
      subst hout
      refine ⟨?_, hlast, h.cycle⟩
      show b.arrivals < b.enter.1.arrivals
      rw [arrivals_enter]
      exact Nat.lt_succ_self _
  · refine ⟨?_, hV.last, hV.cycle⟩
    show l.ticket < b.enter.1.arrivals
    rw [arrivals_enter]
    exact Nat.lt_succ_of_lt hV.arrived
  · have hlast : b.arrivals % n ≠ n - 1 := fun he => hnot _ (h.enter_last hn he).1
    show group n b.enter.1.arrivals = _
    rw [arrivals_enter, (group_succ hn hlast).1]
    exact hW

/-- Between the arrival of a call and a look at the cycle, so many groups have been completed. -/
theorem Waits.pred_iff {l : Local} {b : Barrier} (h : Good n b) (hV : Waits n l b) :
    wait.pred l b = false ↔ (group n b.arrivals - group n l.ticket) % 2 = 0 := by
  have hle : group n l.ticket ≤ group n b.arrivals := Nat.div_le_div_right (Nat.le_of_lt hV.arrived)
  show (l.cycle != b.cycle) = false ↔ _
  rw [bne_eq_false_iff_eq, hV.cycle, h.cycle, decide_eq_decide]
  omega

/-! ### The calls so far -/

/-- The fiber waits in the call with this ticket. -/
def WaitsWith (s : State F) (f : F) (ticket : Nat) : Prop :=
  ∃ l, s.task f = .waits () l ∧ l.ticket = ticket

/-- The calls that have arrived. -/
def calls (s : State F) : Nat := (s.data ()).arrivals

/-- Each call has returned once, or a fiber waits in it. -/
structure Accounted (n : Nat) (s : State F) : Prop where
  once : (s.returned.map fun r => r.result.ticket).Nodup
  arrived : ∀ r ∈ s.returned, r.result.ticket < calls s
  waits : ∀ r ∈ s.returned, ∀ f, ¬ WaitsWith s f r.result.ticket
  own : ∀ f g ticket, WaitsWith s f ticket → WaitsWith s g ticket → f = g
  all : ∀ ticket < calls s, (∃ r ∈ s.returned, r.result.ticket = ticket) ∨ ∃ f, WaitsWith s f ticket
  notEarly : ∀ r ∈ s.returned, (group n r.result.ticket + 1) * n ≤ r.result.arrivals
  value : ∀ r ∈ s.returned, r.result.value = true ↔ r.result.ticket % n = n - 1

variable {s t : State F} {f : F}

theorem Accounted.of_same (h : Accounted n s) (hreturned : t.returned = s.returned)
    (harrivals : calls t = calls s)
    (hwaits : ∀ g ticket, WaitsWith t g ticket ↔ WaitsWith s g ticket) : Accounted n t := by
  refine ⟨hreturned ▸ h.once, ?_, ?_, fun f g k hf hg => ?_, fun k hk => ?_, hreturned ▸ h.notEarly,
    hreturned ▸ h.value⟩
  · rw [hreturned, harrivals]
    exact h.arrived
  · rw [hreturned]
    exact fun r hr f hf => h.waits r hr f ((hwaits _ _).mp hf)
  · exact h.own f g k ((hwaits _ _).mp hf) ((hwaits _ _).mp hg)
  · rw [hreturned]
    refine (h.all k (harrivals ▸ hk)).imp id fun ⟨f, hf⟩ => ⟨f, (hwaits _ _).mpr hf⟩

theorem Accounted.initial {b : Barrier} (hb : b.arrivals = 0) (clock : Nat) :
    Accounted n (Monitored.State.initial (fun _ => b) clock : State F) := by
  have hnone : ∀ f k, ¬ WaitsWith (Monitored.State.initial (fun _ => b) clock : State F) f k := by
    rintro f k ⟨l, hl, _⟩
    exact absurd hl (by simp [Monitored.State.initial])
  refine ⟨List.nodup_nil, fun _ hr => absurd hr List.not_mem_nil,
    fun _ hr => absurd hr List.not_mem_nil, fun f _ k hf => absurd hf (hnone f k), fun k hk => ?_,
    fun _ hr => absurd hr List.not_mem_nil, fun _ hr => absurd hr List.not_mem_nil⟩
  rw [show calls (Monitored.State.initial (fun _ => b) clock : State F) = 0 from hb] at hk
  exact absurd hk (Nat.not_lt_zero k)

variable [DecidableEq F]

theorem Accounted.enter (hn : 0 < n) (h : Accounted n s) (hgood : Good n (s.data ()))
    (hjust : ∀ g l, s.task g = .waits () l → Waits n l (s.data ())) (htask : s.task f = .enters () ())
    (hidle : s.cv.idle f = true) : Accounted n (s.enter wait f () ()) := by
  have hout := (ConditionVariable.Inv.outside_of_idle hidle).1
  have hdata : (s.enter wait f () ()).data () = (s.data ()).enter.1 := by
    rw [enter_data, Function.update_self]
    rfl
  have hcalls : calls (s.enter wait f () ()) = calls s + 1 := by
    rw [calls, hdata, arrivals_enter, calls]
  have hothers : ∀ g, f ≠ g → ∀ k, WaitsWith (s.enter wait f () ()) g k ↔ WaitsWith s g k :=
    fun g hg k => by rw [WaitsWith, enter_task s () () hg, WaitsWith]
  have hnew : ∀ g k, WaitsWith s g k → k < calls s ∧ f ≠ g := by
    rintro g k ⟨l, hl, rfl⟩
    refine ⟨(hjust g l hl).arrived, ?_⟩
    rintro rfl
    exact absurd (htask.symm.trans hl) (by simp)
  by_cases hlast : calls s % n = n - 1
  · obtain ⟨hidle', hreturned⟩ := enter_returns (m := wait) (f := f) (i := ()) (a := ())
      (hgood.enter_last hn hlast).1
    have hnot : ∀ k, ¬ WaitsWith (s.enter wait f () ()) f k := by
      rintro k ⟨l, hl, _⟩
      exact absurd (hidle'.symm.trans hl) (by simp)
    have hkept : ∀ g k, WaitsWith (s.enter wait f () ()) g k ↔ WaitsWith s g k := by
      intro g k
      by_cases hg : f = g
      · subst hg
        exact ⟨fun hw => absurd hw (hnot k), fun hw => absurd rfl (hnew _ k hw).2⟩
      · exact hothers g hg k
    have hcomplete : (group n (calls s) + 1) * n ≤ calls s + 1 := by
      rw [← group_lt_iff hn, (group_succ_of_last hn hlast).1]
      exact Nat.lt_succ_self _
    refine ⟨?_, ?_, ?_, fun g g' k hg hg' => ?_, fun k hk => ?_, ?_, ?_⟩
    · rw [hreturned, List.map_cons, List.nodup_cons]
      refine ⟨fun hmem => ?_, h.once⟩
      obtain ⟨r, hr, he⟩ := List.mem_map.mp hmem
      exact absurd (h.arrived r hr) (by rw [he]; exact Nat.lt_irrefl _)
    · rw [hreturned, hcalls, List.forall_mem_cons]
      exact ⟨Nat.lt_succ_self _, fun r hr => Nat.lt_succ_of_lt (h.arrived r hr)⟩
    · rw [hreturned, List.forall_mem_cons]
      refine ⟨fun g hg => ?_, fun r hr g hg => h.waits r hr g ((hkept g _).mp hg)⟩
      exact absurd (hnew g _ ((hkept g _).mp hg)).1 (Nat.lt_irrefl _)
    · exact h.own g g' k ((hkept g k).mp hg) ((hkept g' k).mp hg')
    · rw [hreturned]
      rw [hcalls] at hk
      rcases Nat.lt_succ_iff_lt_or_eq.mp hk with hk | rfl
      · rcases h.all k hk with ⟨r, hr, he⟩ | ⟨g, hg⟩
        · exact .inl ⟨r, List.mem_cons_of_mem _ hr, he⟩
        · exact .inr ⟨g, (hkept g k).mpr hg⟩
      · exact .inl ⟨_, List.mem_cons_self, rfl⟩
    · rw [hreturned, List.forall_mem_cons]
      exact ⟨hcomplete, h.notEarly⟩
    · rw [hreturned, List.forall_mem_cons]
      exact ⟨⟨fun _ => hlast, fun _ => rfl⟩, h.value⟩
  · obtain ⟨hwaits, hreturned⟩ := enter_begins (m := wait) (f := f) (i := ()) (a := ())
      (hgood.enter_waits hn hlast).1
    have hself : ∀ k, WaitsWith (s.enter wait f () ()) f k ↔ k = calls s := by
      intro k
      constructor
      · rintro ⟨l, hl, rfl⟩
        have he := hwaits.symm.trans hl
        rw [Task.waits.injEq] at he
        exact he.2 ▸ rfl
      · rintro rfl
        exact ⟨_, hwaits, rfl⟩
    refine ⟨hreturned ▸ h.once, ?_, ?_, fun g g' k hg hg' => ?_, fun k hk => ?_,
      hreturned ▸ h.notEarly, hreturned ▸ h.value⟩
    · rw [hreturned, hcalls]
      exact fun r hr => Nat.lt_succ_of_lt (h.arrived r hr)
    · rw [hreturned]
      intro r hr g hg
      by_cases hfg : f = g
      · subst hfg
        exact absurd (h.arrived r hr) (by rw [(hself _).mp hg]; exact Nat.lt_irrefl _)
      · exact h.waits r hr g ((hothers g hfg _).mp hg)
    · by_cases hfg : f = g
      · subst hfg
        by_cases hfg' : f = g'
        · exact hfg'
        · obtain rfl := (hself k).mp hg
          exact absurd (hnew g' _ ((hothers g' hfg' _).mp hg')).1 (Nat.lt_irrefl _)
      · by_cases hfg' : f = g'
        · subst hfg'
          obtain rfl := (hself k).mp hg'
          exact absurd (hnew g _ ((hothers g hfg _).mp hg)).1 (Nat.lt_irrefl _)
        · exact h.own g g' k ((hothers g hfg k).mp hg) ((hothers g' hfg' k).mp hg')
    · rw [hreturned]
      rw [hcalls] at hk
      rcases Nat.lt_succ_iff_lt_or_eq.mp hk with hk | rfl
      · exact (h.all k hk).imp id fun ⟨g, hg⟩ => ⟨g, (hothers g (hnew g k hg).2 k).mpr hg⟩
      · exact .inr ⟨f, (hself _).mpr rfl⟩

theorem Accounted.ends (hn : 0 < n) (h : Accounted n s) {l : Local} (hgood : Good n (s.data ()))
    (hwaits : Waits n l (s.data ())) (htask : s.task f = .waits () l)
    (hpred : wait.pred l (s.data ()) = true) : Accounted n (s.check wait f () l false) := by
  have hvalue : (wait.pred l (s.data ()) || false) = true := by rw [hpred, Bool.or_false]
  obtain ⟨hdata, hidle, hreturned⟩ := check_ends (m := wait) (f := f) hvalue
  have hcalls : calls (s.check wait f () l false) = calls s := by
    rw [calls, hdata, Function.update_self]
    rfl
  have hothers : ∀ g, f ≠ g → ∀ k, WaitsWith (s.check wait f () l false) g k ↔ WaitsWith s g k :=
    fun g hg k => by rw [WaitsWith, hidle, Function.update_of_ne hg.symm, WaitsWith]
  have hnot : ∀ k, ¬ WaitsWith (s.check wait f () l false) f k := by
    rintro k ⟨l', hl, _⟩
    rw [hidle, Function.update_self] at hl
    exact absurd hl (by simp)
  have hold : ∀ g k, WaitsWith (s.check wait f () l false) g k → WaitsWith s g k ∧ f ≠ g := by
    intro g k hw
    have hg : f ≠ g := fun he => hnot k (he ▸ hw)
    exact ⟨(hothers g hg k).mp hw, hg⟩
  have hmine : WaitsWith s f l.ticket := ⟨l, htask, rfl⟩
  have hlt : group n l.ticket < group n (calls s) := by
    have hle : group n l.ticket ≤ group n (calls s) := Nat.div_le_div_right (Nat.le_of_lt hwaits.arrived)
    have hodd := mt (hwaits.pred_iff hgood).mpr (by rw [hpred]; simp)
    rw [show (s.data ()).arrivals = calls s from rfl] at hodd
    omega
  refine ⟨?_, ?_, ?_, fun g g' k hg hg' => ?_, fun k hk => ?_, ?_, ?_⟩
  · rw [hreturned, List.map_cons, List.nodup_cons]
    refine ⟨fun hmem => ?_, h.once⟩
    obtain ⟨r, hr, he⟩ := List.mem_map.mp hmem
    exact h.waits r hr f (he ▸ hmine)
  · rw [hreturned, hcalls, List.forall_mem_cons]
    exact ⟨hwaits.arrived, h.arrived⟩
  · rw [hreturned, List.forall_mem_cons]
    refine ⟨fun g hg => ?_, fun r hr g hg => h.waits r hr g (hold g _ hg).1⟩
    exact (hold g _ hg).2 (h.own f g _ hmine (hold g _ hg).1)
  · exact h.own g g' k (hold g k hg).1 (hold g' k hg').1
  · rw [hreturned]
    rw [hcalls] at hk
    rcases h.all k hk with ⟨r, hr, he⟩ | ⟨g, hg⟩
    · exact .inl ⟨r, List.mem_cons_of_mem _ hr, he⟩
    · by_cases hfg : f = g
      · subst hfg
        obtain ⟨l', hl', rfl⟩ := hg
        have he := htask.symm.trans hl'
        rw [Task.waits.injEq] at he
        exact .inl ⟨_, List.mem_cons_self, congrArg Local.ticket he.2⟩
      · exact .inr ⟨g, (hothers g hfg k).mpr hg⟩
  · rw [hreturned, List.forall_mem_cons]
    exact ⟨(group_lt_iff hn).mp hlt, h.notEarly⟩
  · rw [hreturned, List.forall_mem_cons]
    exact ⟨⟨fun hv => absurd hv Bool.false_ne_true, fun hv => absurd hv hwaits.last⟩, h.value⟩

theorem not_timeout (h : Inv wait s) {l : Local} {w : WaitCall Unit Unit} {timeout : Bool}
    (htask : s.task f = .waits () l) (hphase : s.cv.phase f = .pred w timeout) : timeout = false := by
  obtain ⟨rfl, -, -⟩ := h.checks htask hphase
  by_contra ht
  exact ((h.sync.fibers f).pred hphase).2.2 (by simpa using ht) rfl

theorem Accounted.step (hn : 0 < n) (h : Inv wait s)
    (hj : Justified wait (Good n) (Waits n) (Incomplete n) s) (ha : Accounted n s) {b : Action F}
    (hs : Monitored.step wait s b = some t) : Accounted n t := by
  cases acted hs with
  | @call f _ _ htask =>
    refine ha.of_same rfl rfl fun g k => ?_
    by_cases hg : f = g
    · subst hg
      have hself : (s.call f () ()).task f = .enters () () := Function.update_self _ _ _
      simp [WaitsWith, hself, htask]
    · rw [WaitsWith, show (s.call f () ()).task g = s.task g from Function.update_of_ne (Ne.symm hg) _ _,
        WaitsWith]
  | enter htask hidle =>
    exact ha.enter hn (hj.data ()) (fun g l hl => hj.waits g () l hl) htask hidle
  | @check f _ l w timeout htask hphase =>
    obtain rfl := not_timeout h htask hphase
    cases hpred : wait.pred l (s.data ()) with
    | true => exact ha.ends hn (hj.data ()) (hj.waits f () l htask) htask hpred
    | false =>
      rw [check_again hpred]
      exact ha.of_same rfl rfl fun _ _ => Iff.rfl
  | resume | expire | tick => exact ha.of_same rfl rfl fun _ _ => Iff.rfl

/-! ### Rounds -/

/-- The calls form groups of `n` in the order of their arrival. -/
structure Rounds (n : Nat) (s : State F) : Prop where
  once : (s.returned.map fun r => r.result.ticket).Nodup
  all : ∀ ticket < calls s, (∃ r ∈ s.returned, r.result.ticket = ticket) ∨ ∃ f, WaitsWith s f ticket
  /-- no call returns before its group is complete -/
  notEarly : ∀ r ∈ s.returned, (group n r.result.ticket + 1) * n ≤ r.result.arrivals
  /-- the last call of a group returns `true`, at once, and the others `false` -/
  value : ∀ r ∈ s.returned, r.result.value = true ↔ r.result.ticket % n = n - 1
  last : ∀ ticket < calls s, ticket % n = n - 1 → ∃ r ∈ s.returned, r.result.ticket = ticket
  /-- no other arrival is needed -/
  released : ∀ f l, s.task f = .waits () l → Linked wait s f () l →
    calls s < (group n l.ticket + 1) * n
  settled : Quiescent s → ∀ ticket, (group n ticket + 1) * n ≤ calls s →
    ∃ r ∈ s.returned, r.result.ticket = ticket

/-- A waiter that looks at the cycle waits for its group, or an odd number of groups has been completed
since its arrival. -/
def Recheck (n : Nat) (s : State F) (a : Action F) : Prop :=
  ∀ f l, a = .check f → s.task f = .waits () l →
    group n (calls s) = group n l.ticket ∨ (group n (calls s) - group n l.ticket) % 2 = 1

structure RoundsInv (n : Nat) (s : State F) : Prop where
  sync : Inv wait s
  justified : Justified wait (Good n) (Waits n) (Incomplete n) s
  accounted : Accounted n s

theorem RoundsInv.rounds (hn : 0 < n) (h : RoundsInv n s) : Rounds n s := by
  have hwaiting : ∀ f k, WaitsWith s f k → k % n ≠ n - 1 := by
    rintro f k ⟨l, hl, rfl⟩
    exact (h.justified.waits f () l hl).last
  have hreleased : ∀ f l, s.task f = .waits () l → Linked wait s f () l →
      calls s < (group n l.ticket + 1) * n := by
    intro f l hl hlinked
    have hsame : group n (calls s) = group n l.ticket := h.justified.linked f () l hl hlinked
    rw [← Nat.not_le, ← group_lt_iff hn, hsame]
    exact Nat.lt_irrefl _
  refine ⟨h.accounted.once, h.accounted.all, h.accounted.notEarly, h.accounted.value,
    fun k hk hlast => ?_, hreleased, fun hq k hk => ?_⟩
  · rcases h.accounted.all k hk with hret | ⟨f, hf⟩
    · exact hret
    · exact absurd hlast (hwaiting f k hf)
  · rcases h.accounted.all k (lt_of_complete hn hk) with hret | ⟨f, l, hl, rfl⟩
    · exact hret
    · obtain ⟨_, l', hl', hmode⟩ := h.sync.waits hq (f := f) (by rw [hl]; simp)
      obtain rfl : l = l' := by
        have he := hl.symm.trans hl'
        rw [Task.waits.injEq] at he
        exact he.2
      exact absurd (hreleased f l hl (.inl hmode)) (Nat.not_lt.mpr hk)

theorem RoundsInv.step (hn : 0 < n) (h : RoundsInv n s) {a : Action F} (ha : Recheck n s a)
    (hs : Monitored.step wait s a = some t) : RoundsInv n t := by
  refine ⟨h.sync.step hs, h.justified.step (laws hn) h.sync hs fun f _ l hcheck htask hpred hV => ?_,
    h.accounted.step hn h.sync h.justified hs⟩
  have heven := (hV.pred_iff (h.justified.data ())).mp hpred
  rcases ha f l hcheck htask with hsame | hodd
  · exact hsame
  · exact absurd heven (by rw [show (s.data ()).arrivals = calls s from rfl, hodd]; simp)

/-- Where an even number of groups has been completed, the cycle is the one of the waiter, which waits
again though its group is complete. -/
theorem RoundsInv.not_rounds (hn : 0 < n) (h : RoundsInv n s) {a : Action F} (ha : ¬ Recheck n s a)
    (hs : Monitored.step wait s a = some t) : ¬ Rounds n t := by
  simp only [Recheck, not_forall, not_or] at ha
  obtain ⟨f, l, rfl, htask, hne, hodd⟩ := ha
  have hV := h.justified.waits f () l htask
  have hlt : group n l.ticket < group n (calls s) := by
    have hle : group n l.ticket ≤ group n (calls s) := Nat.div_le_div_right (Nat.le_of_lt hV.arrived)
    omega
  have hpred : wait.pred l (s.data ()) = false := by
    rw [hV.pred_iff (h.justified.data ()), show (s.data ()).arrivals = calls s from rfl]
    omega
  cases acted hs with
  | @check _ _ l' w timeout htask' hphase =>
    have he := htask.symm.trans htask'
    rw [Task.waits.injEq] at he
    obtain ⟨rfl, rfl⟩ := he
    obtain rfl := not_timeout h.sync htask hphase
    obtain ⟨rfl, hout, howner⟩ := h.sync.checks htask hphase
    rw [check_again hpred]
    intro hrounds
    have hmode := (block_self h.sync.sync (w := wait.waitCall () l) hout howner fun j _ => rfl).1
    have hless := hrounds.released f l htask (.inl hmode)
    exact absurd hless (Nat.not_lt.mpr ((group_lt_iff hn).mp hlt))

/-- In a run, the calls are grouped as they should be just when each waiter that looks at the cycle
finds an odd number of groups completed since its arrival, or its group not complete. -/
theorem barrier_rounds {b : Barrier} (hb : create n = some b) {clock : Nat} {as : List (Action F)}
    (hrun : (machine F b clock).exec (machine F b clock).start as = some t) :
    (machine F b clock).Throughout (Rounds n) (machine F b clock).start as ↔
      (machine F b clock).StepsMeet (Recheck n) (machine F b clock).start as := by
  obtain ⟨hn, hgood, hzero⟩ := Good.create hb
  exact Machine.throughout_iff (fun s h => RoundsInv.rounds hn h)
    (fun s a t h hok hs => RoundsInv.step hn h hok hs) (fun s a t h hnot hs => h.not_rounds hn hnot hs)
    ⟨.initial _ clock, .initial (fun _ => hgood) clock, .initial hzero clock⟩ hrun

/-- One round of two fibers. -/
theorem barrier_rounds_one :
    ∃ t : State Nat, t.returned = [⟨0, (), ⟨0, false, 2⟩⟩, ⟨1, (), ⟨1, true, 2⟩⟩] ∧
      ((machine Nat ⟨2, 2, true, 0⟩ 0).Throughout (Rounds 2) (machine Nat ⟨2, 2, true, 0⟩ 0).start
          [.call 0 () (), .enter 0, .check 0, .call 1 () (), .enter 1, .resume 0, .check 0] ↔
        (machine Nat ⟨2, 2, true, 0⟩ 0).StepsMeet (Recheck 2) (machine Nat ⟨2, 2, true, 0⟩ 0).start
          [.call 0 () (), .enter 0, .check 0, .call 1 () (), .enter 1, .resume 0, .check 0]) := by
  obtain ⟨t, hrun, hreturned⟩ : ∃ t, (machine Nat ⟨2, 2, true, 0⟩ 0).exec
      (machine Nat ⟨2, 2, true, 0⟩ 0).start
      [.call 0 () (), .enter 0, .check 0, .call 1 () (), .enter 1, .resume 0, .check 0] = some t ∧
      t.returned = [⟨0, (), ⟨0, false, 2⟩⟩, ⟨1, (), ⟨1, true, 2⟩⟩] := ⟨_, rfl, rfl⟩
  exact ⟨t, hreturned, barrier_rounds rfl hrun⟩

/-- A second group of two calls is complete before the waiter of the first is resumed; it waits again,
and no call is left that may wake it. -/
theorem barrier_rounds_overtaken :
    ∃ s : State Nat, (machine Nat ⟨2, 2, true, 0⟩ 0).Reachable s ∧ calls s = 4 ∧
      (s.returned.map fun r => r.result.ticket) = [2, 3, 1] ∧ s.cv.sync.fibers.ready = [] ∧
      ¬ Rounds 2 s := by
  obtain ⟨s, hs, hcalls, hreturned, hready, htask, hmode⟩ : ∃ s, (machine Nat ⟨2, 2, true, 0⟩ 0).exec
      (machine Nat ⟨2, 2, true, 0⟩ 0).start
      [.call 0 () (), .enter 0, .check 0, .call 1 () (), .enter 1, .call 1 () (), .enter 1, .check 1,
        .call 2 () (), .enter 2, .resume 0, .check 0, .resume 1, .check 1] = some s ∧
      calls s = 4 ∧ (s.returned.map fun r => r.result.ticket) = [2, 3, 1] ∧
      s.cv.sync.fibers.ready = [] ∧ s.task 0 = .waits () ⟨true, 0⟩ ∧
      s.cv.mode 0 = .suspended (.wait (wait.waitCall () ⟨true, 0⟩)) :=
    ⟨_, rfl, rfl, rfl, rfl, rfl, rfl⟩
  refine ⟨s, Machine.reachable_of_exec hs, hcalls, hreturned, hready, fun hrounds => ?_⟩
  have hless := hrounds.released 0 ⟨true, 0⟩ htask (.inl hmode)
  rw [hcalls] at hless
  exact absurd hless (by decide)

end Dumbo.Fiber.Barrier
