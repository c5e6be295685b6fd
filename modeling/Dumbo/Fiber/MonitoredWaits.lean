import Dumbo.Fiber.MonitoredInvariant

/-!
# Why the fibers of an object wait
-/

namespace Dumbo.Fiber.Monitored

open Transition

variable {F I D A L R : Type*} [DecidableEq F] [DecidableEq I] {m : Methods D A L R}
  {s t : State F I D A L R} {f : F} {i : I} {a : A} {l : L}

/-! ### Where nothing goes on by itself -/

/-- No fiber is at work in a call, ready, or asleep. -/
structure Quiescent (s : State F I D A L R) : Prop where
  work : ∀ f, s.task f ≠ .idle → s.cv.mode f ≠ .outside
  ready : s.cv.sync.fibers.ready = []
  deadlines : ∀ f op, s.cv.mode f = .suspended op → Wait.deadline op = none

theorem Inv.suspended (h : Inv m s) (hq : Quiescent s) (htask : s.task f ≠ .idle) :
    ∃ op, s.cv.mode f = .suspended op := by
  have hready : (s.cv.mode f).isReady ≠ true := fun hr => by
    have hmem := (h.sync.sync.fibers.ready f).mpr hr
    rw [hq.ready] at hmem
    exact List.not_mem_nil hmem
  cases hmode : s.cv.mode f with
  | outside => exact absurd hmode (hq.work f htask)
  | suspended op => exact ⟨op, rfl⟩
  | expired op | notified op => exact absurd (by rw [hmode]; rfl) hready

/-- An owner is at work, ready, or in a wait, in which it owns no mutex. -/
theorem Inv.free (h : Inv m s) (hq : Quiescent s) (i : I) : s.cv.sync.owner i = none := by
  by_contra hne
  obtain ⟨f, hf⟩ := Option.ne_none_iff_exists'.mp hne
  have hobject := h.owner f i hf
  have htask : s.task f ≠ .idle := fun he => by simp [he, Task.object] at hobject
  obtain ⟨op, hop⟩ := h.suspended hq htask
  have hcall : (s.cv.mode f).call = some op := by rw [hop]; rfl
  have hnot : ¬ (s.cv.mode f).linked (.mutex i) := fun hl =>
    h.sync.sync.owner i f hf ((h.sync.sync.fibers.linked _ _).mpr hl)
  rw [hop] at hnot
  rcases (h.place f).of_call hcall with ⟨j, a, htask', rfl⟩ | ⟨j, l, htask', rfl | ⟨timeout, rfl⟩⟩
  · rw [htask'] at hobject
    obtain rfl := Option.some.inj hobject
    exact hnot rfl
  · rw [htask'] at hobject
    obtain rfl := Option.some.inj hobject
    exact (h.sync.found hcall).1 hf
  · rw [htask'] at hobject
    obtain rfl := Option.some.inj hobject
    exact hnot rfl

/-- Only waits are left, which no notification has reached. -/
theorem Inv.waits (h : Inv m s) (hq : Quiescent s) (htask : s.task f ≠ .idle) :
    ∃ i l, s.task f = .waits i l ∧ s.cv.mode f = .suspended (.wait (m.waitCall i l)) := by
  obtain ⟨op, hop⟩ := h.suspended hq htask
  have hcall : (s.cv.mode f).call = some op := by rw [hop]; rfl
  have hmutex : ∀ i, Wait.queue op ≠ some (.mutex i) := fun i he => by
    have hlinked : f ∈ s.cv.sync.fibers.queue (.mutex i) := by
      rw [h.sync.sync.fibers.linked, show s.cv.sync.fibers.mode f = .suspended op from hop]
      exact he
    rw [h.sync.sync.free i (h.free hq i)] at hlinked
    exact List.not_mem_nil hlinked
  rcases (h.place f).of_call hcall with ⟨i, a, _, rfl⟩ | ⟨i, l, htask', rfl | ⟨timeout, rfl⟩⟩
  · exact absurd rfl (hmutex i)
  · exact ⟨i, l, htask', hop⟩
  · exact absurd rfl (hmutex i)

/-! ### Why a fiber waits -/

/-- The fiber is in the wait queue of its object. -/
def Linked (m : Methods D A L R) (s : State F I D A L R) (f : F) (i : I) (l : L) : Prop :=
  s.cv.mode f = .suspended (.wait (m.waitCall i l)) ∨ s.cv.mode f = .expired (.wait (m.waitCall i l))

/-- Objects keep `G`; a wait keeps `V`, and `W` until it is notified. -/
structure Laws (m : Methods D A L R) (G : D → Prop) (V W : L → D → Prop) : Prop where
  enter : ∀ a d, G d → G (m.enter a d).1
  leave : ∀ l value d, G d → G (m.leave l value d).1
  begins : ∀ a d l, G d → (m.enter a d).2 = .waits l → V l (m.enter a d).1
  enter_waits : ∀ a d l, G d → V l d → V l (m.enter a d).1
  leave_waits : ∀ k value d l, G d → V l d → V l (m.leave k value d).1
  enter_linked : ∀ a d l, G d → V l d → W l d → (∀ r, (m.enter a d).2 ≠ .returns r true) →
    W l (m.enter a d).1
  leave_linked : ∀ k value d l, G d → W l d → W l (m.leave k value d).1

structure Justified (m : Methods D A L R) (G : D → Prop) (V W : L → D → Prop) (s : State F I D A L R) :
    Prop where
  data : ∀ i, G (s.data i)
  waits : ∀ f i l, s.task f = .waits i l → V l (s.data i)
  linked : ∀ f i l, s.task f = .waits i l → Linked m s f i l → W l (s.data i)

variable {G : D → Prop} {V W : L → D → Prop}

omit [DecidableEq F] [DecidableEq I] in
theorem Justified.initial {data : I → D} (hdata : ∀ i, G (data i)) (clock : Nat) :
    Justified m G V W (.initial data clock : State F I D A L R) :=
  ⟨hdata, fun _ _ _ h => absurd h (by simp [State.initial]),
    fun _ _ _ h => absurd h (by simp [State.initial])⟩

omit [DecidableEq F] [DecidableEq I] in
theorem Linked.not_outside (h : Linked m s f i l) : s.cv.mode f ≠ .outside := by
  rcases h with h | h
  · simp [h]
  · simp [h]

omit [DecidableEq F] [DecidableEq I] in
theorem Linked.of_aside (h : Linked m t f i l) (ha : ConditionVariable.Aside s.cv t.cv f) :
    Linked m s f i l :=
  ha.waits _ h

theorem Justified.change (h : Justified m G V W s) (f : F) (i : I) (hG : G (t.data i))
    (hV : ∀ l, V l (s.data i) → V l (t.data i))
    (hW : ∀ g l, Linked m t g i l → V l (s.data i) → W l (s.data i) → W l (t.data i))
    (hdata : ∀ j, j ≠ i → t.data j = s.data j)
    (haside : ∀ g, f ≠ g → ConditionVariable.Aside s.cv t.cv g) (htask : ∀ g, f ≠ g → t.task g = s.task g)
    (hf : ∀ j l, t.task f = .waits j l → V l (t.data j) ∧ (Linked m t f j l → W l (t.data j))) :
    Justified m G V W t := by
  refine ⟨fun j => ?_, fun g j l hg => ?_, fun g j l hg hlinked => ?_⟩
  · by_cases hj : j = i
    · exact hj ▸ hG
    · rw [hdata j hj]
      exact h.data j
  · by_cases hgf : f = g
    · subst hgf
      exact (hf j l hg).1
    · rw [htask g hgf] at hg
      have hold := h.waits g j l hg
      by_cases hj : j = i
      · subst hj
        exact hV l hold
      · rw [hdata j hj]
        exact hold
  · by_cases hgf : f = g
    · subst hgf
      exact (hf j l hg).2 hlinked
    · rw [htask g hgf] at hg
      have hold := h.linked g j l hg (hlinked.of_aside (haside g hgf))
      by_cases hj : j = i
      · subst hj
        exact hW g l hlinked (h.waits g j l hg) hold
      · rw [hdata j hj]
        exact hold

omit [DecidableEq F] [DecidableEq I] in
theorem Justified.aside (h : Justified m G V W s) {cv : ConditionVariable.State F I I}
    (hlinked : ∀ g i l, Linked m { s with cv := cv } g i l → Linked m s g i l) :
    Justified m G V W { s with cv := cv } :=
  ⟨h.data, h.waits, fun g i l hg hl => h.linked g i l hg (hlinked g i l hl)⟩

theorem Justified.call (h : Justified m G V W s) (i : I) (a : A) : Justified m G V W (s.call f i a) :=
  h.change f i (h.data i) (fun _ => id) (fun _ _ _ _ => id) (fun _ _ => rfl)
    (fun _ hg => (ConditionVariable.Aside.lock hg i).count) (fun _ hg => Function.update_of_ne hg.symm _ _)
    fun j l hf => absurd ((Function.update_self _ _ _).symm.trans hf) (by simp)

theorem not_linked_of_notifyAll (h : ConditionVariable.Inv s.cv) (i : I) (g : F) (l : L) :
    ¬ Linked m (s.notifyAll i) g i l := by
  intro hlinked
  have hmode : ((s.notifyAll i).cv.mode g).linked (.condition i) := by
    rcases hlinked with hm | hm
    · rw [hm]
      rfl
    · rw [hm]
      rfl
  have hmem := ((h.notifyAll i).count.sync.fibers.linked (.condition i) g).mpr hmode
  rw [show ((s.cv.notifyAll i).count.sync.fibers.queue (.condition i)) = [] from by
    rw [show (s.cv.notifyAll i).count.sync.fibers = s.cv.sync.fibers.wakeAll (.condition i) from rfl,
      Fibers.wakeAll_queue, Function.update_self]] at hmem
  exact List.not_mem_nil hmem

/-! ### What a call does to its object -/

theorem enter_data (s : State F I D A L R) (f : F) (i : I) (a : A) :
    (s.enter m f i a).data = Function.update s.data i (m.enter a (s.data i)).1 := by
  rw [State.enter]
  cases (m.enter a (s.data i)).2 with
  | returns r notify => cases notify <;> rfl
  | calls b => rfl
  | waits l => rfl

theorem enter_task (s : State F I D A L R) (i : I) (a : A) {g : F} (hg : f ≠ g) :
    (s.enter m f i a).task g = s.task g := by
  have hupdate : ∀ task, Function.update s.task f task g = s.task g := fun _ =>
    Function.update_of_ne hg.symm _ _
  rw [State.enter]
  cases (m.enter a (s.data i)).2 with
  | returns r notify => cases notify <;> exact hupdate _
  | calls b => exact hupdate _
  | waits l => exact hupdate _

theorem enter_returns {r : R} {notify : Bool} (hout : (m.enter a (s.data i)).2 = .returns r notify) :
    (s.enter m f i a).task f = .idle ∧ (s.enter m f i a).returned = ⟨f, i, r⟩ :: s.returned := by
  rw [State.enter, hout]
  cases notify with
  | false => exact ⟨Function.update_self _ _ _, rfl⟩
  | true => exact ⟨Function.update_self _ _ _, rfl⟩

theorem enter_calls {b : A} (hout : (m.enter a (s.data i)).2 = .calls b) :
    (s.enter m f i a).task f = .enters i b ∧ (s.enter m f i a).returned = s.returned := by
  rw [State.enter, hout]
  exact ⟨Function.update_self _ _ _, rfl⟩

theorem enter_begins {k : L} (hout : (m.enter a (s.data i)).2 = .waits k) :
    (s.enter m f i a).task f = .waits i k ∧ (s.enter m f i a).returned = s.returned := by
  rw [State.enter, hout]
  exact ⟨Function.update_self _ _ _, rfl⟩

theorem enter_object (htask : s.task f = .enters i a) {g : F} {j : I}
    (hj : ((s.enter m f i a).task g).object = some j) : (s.task g).object = some j := by
  by_cases hg : f = g
  · subst hg
    rw [htask]
    cases hout : (m.enter a (s.data i)).2 with
    | returns r notify =>
      rw [(enter_returns hout).1] at hj
      exact absurd hj (by simp [Task.object])
    | calls b =>
      rw [(enter_calls hout).1] at hj
      exact hj
    | waits l =>
      rw [(enter_begins hout).1] at hj
      exact hj
  · rw [enter_task s i a hg] at hj
    exact hj

theorem enter_waits (hout : s.cv.mode f = .outside) {j : I} {k : L}
    (hwaits : (s.enter m f i a).task f = .waits j k) :
    j = i ∧ (m.enter a (s.data i)).2 = .waits k ∧ (s.enter m f i a).cv.mode f = .outside := by
  have hself : ∀ task, Function.update s.task f task f = task := fun _ => Function.update_self _ _ _
  revert hwaits
  rw [State.enter]
  cases (m.enter a (s.data i)).2 with
  | returns r notify =>
    cases notify <;> exact fun hwaits => absurd ((hself _).symm.trans hwaits) (by simp)
  | calls b => exact fun hwaits => absurd ((hself _).symm.trans hwaits) (by simp)
  | waits l =>
    intro hwaits
    have htask := (hself _).symm.trans hwaits
    rw [Task.waits.injEq] at htask
    obtain ⟨rfl, rfl⟩ := htask
    exact ⟨rfl, rfl, hout⟩

theorem Inv.aside_enter (h : Inv m s) (htask : s.task f = .enters i a) (hidle : s.cv.idle f = true)
    {g : F} (hg : f ≠ g) : ConditionVariable.Aside s.cv (s.enter m f i a).cv g := by
  obtain ⟨hcv, haside, _, _⟩ := (h.ends_enter htask hidle (m.enter a (s.data i)).1).unlocked
  have hinv := ConditionVariable.reachable_inv hcv.choose_spec
  rw [State.enter]
  cases (m.enter a (s.data i)).2 with
  | returns r notify =>
    cases notify with
    | false => exact haside g hg
    | true => exact (haside g hg).trans (ConditionVariable.Aside.notifyAll hinv i g).count
  | calls b => exact (haside g hg).trans (ConditionVariable.Aside.lock hg i).count
  | waits l => exact .of_same rfl (Function.update_of_ne hg.symm _ _) fun _ => Iff.rfl

theorem Inv.notified_enter (h : Inv m s) (htask : s.task f = .enters i a) (hidle : s.cv.idle f = true)
    {r : R} (hout : (m.enter a (s.data i)).2 = .returns r true) (g : F) (l : L) :
    ¬ Linked m (s.enter m f i a) g i l := by
  obtain ⟨hcv, _⟩ := (h.ends_enter htask hidle (m.enter a (s.data i)).1).unlocked
  have hinv := ConditionVariable.reachable_inv hcv.choose_spec
  rw [State.enter, hout]
  exact not_linked_of_notifyAll (s := (s.setData i _).exit f i r) hinv i g l

theorem Justified.enter (hlaws : Laws m G V W) (h : Inv m s) (hj : Justified m G V W s)
    (htask : s.task f = .enters i a) (hidle : s.cv.idle f = true) :
    Justified m G V W (s.enter m f i a) := by
  have hout := (ConditionVariable.Inv.outside_of_idle hidle).1
  have hd := hj.data i
  have hdata : (s.enter m f i a).data i = (m.enter a (s.data i)).1 := by
    rw [enter_data, Function.update_self]
  refine hj.change f i ?_ (fun l hV => ?_) (fun g l hl hV hW => ?_) (fun j hji => ?_)
    (fun g hg => h.aside_enter htask hidle hg) (fun g hg => enter_task s i a hg) fun j k hwaits => ?_
  · rw [hdata]
    exact hlaws.enter a _ hd
  · rw [hdata]
    exact hlaws.enter_waits a _ l hd hV
  · rw [hdata]
    exact hlaws.enter_linked a _ l hd hV hW fun r hr => h.notified_enter htask hidle hr g l hl
  · rw [enter_data, Function.update_of_ne hji]
  · obtain ⟨rfl, hk, hmode⟩ := enter_waits hout hwaits
    rw [hdata]
    exact ⟨hlaws.begins a _ k hd hk, fun hl => absurd hmode hl.not_outside⟩

theorem check_ends {timeout : Bool} (hvalue : (m.pred l (s.data i) || timeout) = true) :
    (s.check m f i l timeout).data =
        Function.update s.data i (m.leave l (m.pred l (s.data i)) (s.data i)).1 ∧
      (s.check m f i l timeout).task = Function.update s.task f .idle ∧
      (s.check m f i l timeout).returned =
        ⟨f, i, (m.leave l (m.pred l (s.data i)) (s.data i)).2⟩ :: s.returned := by
  rw [State.check, if_pos hvalue]
  exact ⟨rfl, rfl, rfl⟩

theorem check_again (hpred : m.pred l (s.data i) = false) :
    s.check m f i l false = { s with cv := (s.cv.block f (m.waitCall i l)).count } := by
  rw [State.check, hpred]
  rfl

theorem Inv.aside_check (h : Inv m s) {w : WaitCall I I} {timeout : Bool} (htask : s.task f = .waits i l)
    (hphase : s.cv.phase f = .pred w timeout) {g : F} (hg : f ≠ g) :
    ConditionVariable.Aside s.cv (s.check m f i l timeout).cv g := by
  obtain ⟨rfl, hout, howner⟩ := h.checks htask hphase
  rw [State.check]
  split_ifs with hvalue
  · exact (h.ends_check htask hphase hvalue _).unlocked.2.1 g hg
  · exact (ConditionVariable.Aside.block h.sync hg hout howner).count

theorem Justified.check (hlaws : Laws m G V W) (h : Inv m s) (hj : Justified m G V W s)
    {w : WaitCall I I} {timeout : Bool} (htask : s.task f = .waits i l)
    (hphase : s.cv.phase f = .pred w timeout)
    (hcheck : m.pred l (s.data i) = false → V l (s.data i) → W l (s.data i)) :
    Justified m G V W (s.check m f i l timeout) := by
  have hd := hj.data i
  have haside : ∀ g, f ≠ g → ConditionVariable.Aside s.cv (s.check m f i l timeout).cv g :=
    fun g hg => h.aside_check htask hphase hg
  by_cases hvalue : (m.pred l (s.data i) || timeout) = true
  · obtain ⟨hdata, hidle, _⟩ := check_ends (f := f) hvalue
    have hself : (s.check m f i l timeout).data i =
        (m.leave l (m.pred l (s.data i)) (s.data i)).1 := by
      rw [hdata, Function.update_self]
    refine hj.change f i ?_ (fun k hV => ?_) (fun g k _ _ hW => ?_) (fun j hji => ?_) haside
      (fun g hg => ?_) fun j k hwaits => ?_
    · rw [hself]
      exact hlaws.leave l _ _ hd
    · rw [hself]
      exact hlaws.leave_waits l _ _ k hd hV
    · rw [hself]
      exact hlaws.leave_linked l _ _ k hd hW
    · rw [hdata, Function.update_of_ne hji]
    · rw [hidle, Function.update_of_ne hg.symm]
    · rw [hidle, Function.update_self] at hwaits
      exact absurd hwaits (by simp)
  · rw [Bool.not_eq_true, Bool.or_eq_false_iff] at hvalue
    obtain ⟨hpred, rfl⟩ := hvalue
    rw [check_again hpred] at haside ⊢
    refine hj.change f i hd (fun _ => id) (fun _ _ _ _ => id) (fun _ _ => rfl) haside (fun _ _ => rfl)
      fun j k hwaits => ⟨hj.waits f j k hwaits, fun _ => ?_⟩
    have hsame := htask.symm.trans hwaits
    rw [Task.waits.injEq] at hsame
    obtain ⟨rfl, rfl⟩ := hsame
    exact hcheck hpred (hj.waits f i l htask)

theorem not_linked_of_resume {cv : ConditionVariable.State F I I} (h : ConditionVariable.Inv s.cv)
    (hs : ConditionVariable.step s.cv (.resume f) = some cv) (i : I) (l : L) :
    ¬ Linked m { s with cv := cv } f i l := by
  have hpicked : (s.cv.pick f).mode f = .outside := Function.update_self _ _ _
  obtain ⟨u, hact, rfl⟩ := Option.map_eq_some_iff.mp hs
  intro hlinked
  cases ConditionVariable.acted hact with
  | @resumeWait f w hmode =>
    have hcall : (s.cv.mode f).call = some (.wait w) := by
      rcases hmode with hmode | hmode <;> simp [hmode, Mode.call]
    have howner : (s.cv.unlink f).sync.owner w.lt ≠ some f := (h.found hcall).1
    have hout : (s.cv.unlink f).mode f = .outside := Function.update_self _ _ _
    have hlast : (s.cv.resumeWait f w).mode f = .outside ∨
        ∃ timeout, (s.cv.resumeWait f w).mode f = .suspended (.relock w timeout) := by
      rw [ConditionVariable.State.resumeWait, ConditionVariable.State.relock, if_neg howner]
      split_ifs
      · left
        rw [ConditionVariable.State.mode, ConditionVariable.State.relocked_sync]
        exact hout
      · exact .inr ⟨_, Function.update_self _ _ _⟩
    rcases hlast with hlast | ⟨timeout, hlast⟩
    · exact hlinked.not_outside hlast
    · rcases hlinked with hm | hm
      · exact absurd (hlast.symm.trans hm) (by simp)
      · exact absurd (hlast.symm.trans hm) (by simp)
  | resumeLock hmode => exact hlinked.not_outside hpicked
  | @resumeRelock f w timeout hmode =>
    refine hlinked.not_outside ?_
    show ((s.cv.pick f).relocked f w timeout).mode f = .outside
    rw [ConditionVariable.State.mode, ConditionVariable.State.relocked_sync]
    exact hpicked

/-- One step, where a fiber that waits again has reason to. -/
theorem Justified.step (hlaws : Laws m G V W) (h : Inv m s) (hj : Justified m G V W s)
    {b : Action F I A} (hs : Monitored.step m s b = some t)
    (hcheck : ∀ f i l, b = .check f → s.task f = .waits i l → m.pred l (s.data i) = false →
      V l (s.data i) → W l (s.data i)) : Justified m G V W t := by
  cases acted hs with
  | call htask => exact hj.call _ _
  | enter htask hidle => exact hj.enter hlaws h htask hidle
  | check htask hphase => exact hj.check hlaws h htask hphase (hcheck _ _ _ rfl htask)
  | @resume f cv hcv =>
    refine hj.aside fun g i l hl => ?_
    by_cases hg : f = g
    · subst hg
      exact absurd hl (not_linked_of_resume h.sync hcv i l)
    · exact hl.of_aside (s := s) (.resume hcv hg)
  | expire hcv => exact hj.aside fun g i l hl => hl.of_aside (s := s) (.expire hcv g)
  | tick hcv => exact hj.aside fun g i l hl => hl.of_aside (s := s) (.tick hcv g)

end Dumbo.Fiber.Monitored
