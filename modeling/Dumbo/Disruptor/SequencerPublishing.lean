import Dumbo.Disruptor.Sequencer

/-!
# Order and capacity of published batches

The claims form a chain of ranges that starts at 0. The published ones are its first part and end at
the cursor; each of the others is held by the publisher that made it. A publisher past its capacity
check is within one ring of every gating sequence, and so is every sequence that has been written.
-/

namespace Dumbo.Disruptor.Sequencer

open Transition

variable {T : Type}

/-! ### Chains of ranges -/

/-- Each range begins where the one before it ends; the first begins after `a` and the last ends at
`b`. -/
def Chain : Int → List Claimed → Int → Prop
  | a, [], b => a = b
  | a, c :: cs, b => 1 ≤ c.delta ∧ c.sequence = a + c.delta ∧ Chain c.sequence cs b

theorem Chain.append {a b c : Int} {cs ds : List Claimed} (h : Chain a cs b) (h' : Chain b ds c) :
    Chain a (cs ++ ds) c := by
  induction cs generalizing a with
  | nil => exact h ▸ h'
  | cons e cs ih => exact ⟨h.1, h.2.1, ih h.2.2⟩

theorem Chain.le {a b : Int} {cs : List Claimed} (h : Chain a cs b) : a ≤ b := by
  induction cs generalizing a with
  | nil => exact Int.le_of_eq h
  | cons c cs ih =>
    obtain ⟨_, hseq, hrest⟩ := h
    have hle := ih hrest
    omega

theorem Chain.within {a b : Int} {cs : List Claimed} (h : Chain a cs b) {c : Claimed} (hc : c ∈ cs) :
    1 ≤ c.delta ∧ a ≤ c.sequence - c.delta ∧ c.sequence ≤ b := by
  induction cs generalizing a with
  | nil => exact absurd hc List.not_mem_nil
  | cons e cs ih =>
    obtain ⟨hdelta, hseq, hrest⟩ := h
    rcases List.mem_cons.mp hc with rfl | hc
    · exact ⟨hdelta, by omega, hrest.le⟩
    · obtain ⟨h1, h2, h3⟩ := ih hrest hc
      exact ⟨h1, by omega, h3⟩

theorem Chain.pairwise {a b : Int} {cs : List Claimed} (h : Chain a cs b) :
    cs.Pairwise fun c c' : Claimed => c.sequence ≤ c'.sequence - c'.delta := by
  induction cs generalizing a with
  | nil => exact .nil
  | cons e cs ih => exact .cons (fun c hc => (h.2.2.within hc).2.1) (ih h.2.2)

/-- Only the first range of a chain begins at its start. -/
theorem Chain.head {a b : Int} {cs : List Claimed} (h : Chain a cs b) {c : Claimed} (hc : c ∈ cs)
    (ha : c.sequence - c.delta ≤ a) : ∃ rest, cs = c :: rest := by
  cases cs with
  | nil => exact absurd hc List.not_mem_nil
  | cons e cs =>
    rcases List.mem_cons.mp hc with rfl | hc
    · exact ⟨cs, rfl⟩
    · obtain ⟨hdelta, hseq, hrest⟩ := h
      have hle := (hrest.within hc).2.1
      omega

/-! ### The invariant -/

/-- The range that a publisher has claimed and not yet published. -/
def Pc.held : Pc → Option (Int × Nat)
  | .idle => none
  | .check q d | .scan q d _ _ | .write q d | .synchronize q d | .publish q d => some (q, d)

/-- The sequence that `Claim` has returned. -/
def Pc.returned : Pc → Option Int
  | .write q _ | .synchronize q _ | .publish q _ => some q
  | _ => none

/-- The range whose slots are all written. -/
def Pc.complete : Pc → Option (Int × Nat)
  | .synchronize q d | .publish q d => some (q, d)
  | _ => none

/-- The claims that are not yet published, in their order. -/
structure Pending (s : State T) (pending : List Claimed) : Prop where
  claims : s.claims = s.published ++ pending
  published : Chain (-1) s.published s.cursor
  chain : Chain s.cursor pending s.lastClaimed
  held : ∀ p q d, (s.publisher p).held = some (q, d) ↔ ⟨p, q, d⟩ ∈ pending

/-- What a publisher's place says about the gating sequences, the cursor and the slots. -/
structure PcOk (k gates : Nat) (s : State T) (pc : Pc) : Prop where
  scan : ∀ q d n m, pc = .scan q d n m → n ≤ gates ∧ ∀ i < n, m ≤ s.gating i
  returned : ∀ q, pc.returned = some q → ∀ i < gates, q - 2 ^ k ≤ s.gating i
  publish : ∀ q d, pc = .publish q d → q - d ≤ s.cursor
  complete : ∀ q d, pc.complete = some (q, d) → ∀ j, q - d < j → j ≤ q → (s.written j).isSome

structure Inv (k gates : Nat) (s : State T) : Prop where
  lastConsumer : s.lastConsumer = -1
  range : s.lastClaimed ≤ int64Max
  pending : ∃ pending, Pending s pending
  gate : ∀ i < gates, -1 ≤ s.gating i ∧ s.gating i ≤ s.cursor
  publisher : ∀ p, PcOk k gates s (s.publisher p)
  visible : ∀ j, 0 ≤ j → j ≤ s.cursor → (s.written j).isSome
  room : ∀ j, (s.written j).isSome → ∀ i < gates, j ≤ s.gating i + 2 ^ k
  kept : ∀ j v, s.written j = some v → ∀ i < gates, s.gating i < j →
    s.events (ringIndex (2 ^ k) j) = v

variable {k gates : Nat} {longMax : Int} {s t : State T} {p : ThreadId} {q : Int} {d : Nat}

/-- The gating sequences and the cursor only grow, and slots stay written. -/
theorem PcOk.mono {pc : Pc} (h : PcOk k gates s pc) (hgate : ∀ i < gates, s.gating i ≤ t.gating i)
    (hcursor : s.cursor ≤ t.cursor) (hwritten : ∀ j, (s.written j).isSome → (t.written j).isSome) :
    PcOk k gates t pc := by
  refine ⟨fun q d n m hpc => ?_, fun q hq i hi => ?_, fun q d hpc => ?_, fun q d hq j hj hj' => ?_⟩
  · obtain ⟨hn, hm⟩ := h.scan q d n m hpc
    exact ⟨hn, fun i hi => Int.le_trans (hm i hi) (hgate i (Nat.lt_of_lt_of_le hi hn))⟩
  · exact Int.le_trans (h.returned q hq i hi) (hgate i hi)
  · exact Int.le_trans (h.publish q d hpc) hcursor
  · exact hwritten j (h.complete q d hq j hj hj')

theorem PcOk.idle : PcOk k gates s .idle := by
  constructor <;> simp [Pc.returned, Pc.complete]

theorem PcOk.check : PcOk k gates s (.check q d) := by
  constructor <;> simp [Pc.returned, Pc.complete]

theorem PcOk.begin_scan {n : Nat} {m : Int} (hn : n ≤ gates) (hm : ∀ i < n, m ≤ s.gating i) :
    PcOk k gates s (.scan q d n m) := by
  refine ⟨fun q' d' n' m' heq => ?_, ?_, ?_, ?_⟩
  · rw [Pc.scan.injEq] at heq
    obtain ⟨_, _, rfl, rfl⟩ := heq
    exact ⟨hn, hm⟩
  · simp [Pc.returned]
  · simp
  · simp [Pc.complete]

theorem PcOk.write (h : ∀ i < gates, q - 2 ^ k ≤ s.gating i) : PcOk k gates s (.write q d) := by
  refine ⟨?_, fun q' hq' => ?_, ?_, ?_⟩
  · simp
  · rw [Pc.returned, Option.some.injEq] at hq'
    exact hq' ▸ h
  · simp
  · simp [Pc.complete]

theorem PcOk.synchronize (h : PcOk k gates s (.write q d))
    (hwritten : ∀ j, q - d < j → j ≤ q → (s.written j).isSome) :
    PcOk k gates s (.synchronize q d) := by
  refine ⟨?_, fun q' hq' => h.returned q' hq', ?_, fun q' d' heq => ?_⟩
  · simp
  · simp
  · rw [Pc.complete, Option.some.injEq, Prod.mk.injEq] at heq
    obtain ⟨rfl, rfl⟩ := heq
    exact hwritten

theorem PcOk.publish_at (h : PcOk k gates s (.synchronize q d)) (hcursor : q - d ≤ s.cursor) :
    PcOk k gates s (.publish q d) := by
  refine ⟨?_, fun q' hq' => h.returned q' hq', fun q' d' heq => ?_,
    fun q' d' heq => h.complete q' d' heq⟩
  · simp
  · rw [Pc.publish.injEq] at heq
    obtain ⟨rfl, rfl⟩ := heq
    exact hcursor

theorem PcOk.same {pc : Pc} (h : PcOk k gates s pc) (hgate : t.gating = s.gating)
    (hcursor : t.cursor = s.cursor) (hwritten : t.written = s.written) : PcOk k gates t pc := by
  refine h.mono (fun i _ => ?_) ?_ fun j hj => ?_
  · rw [hgate]
  · rw [hcursor]
  · rwa [hwritten]

theorem PcOk.update {pc : Pc} (hpc : PcOk k gates t pc)
    (h : ∀ p', PcOk k gates t (s.publisher p'))
    (ht : t.publisher = Function.update s.publisher p pc) :
    ∀ p', PcOk k gates t (t.publisher p') := by
  rw [ht]
  exact (Function.forall_update_iff s.publisher fun _ pc => PcOk k gates t pc).mpr
    ⟨hpc, fun p' _ => h p'⟩

theorem Inv.initial [Inhabited T] : Inv k gates (initial : State T) := by
  have hrange : (-1 : Int) ≤ int64Max := by decide
  refine ⟨rfl, hrange, ⟨[], rfl, rfl, rfl, ?_⟩, ?_, fun _ => .idle, ?_, ?_, ?_⟩
  · simp [Sequencer.initial, Pc.held]
  · intro i _
    exact ⟨Int.le_refl _, Int.le_refl _⟩
  · intro j h0 hj
    simp only [Sequencer.initial, kInitialCursorValue] at hj
    omega
  · simp [Sequencer.initial]
  · simp [Sequencer.initial]

theorem Inv.held_within (h : Inv k gates s) (hp : (s.publisher p).held = some (q, d)) :
    -1 ≤ s.cursor ∧ 1 ≤ d ∧ s.cursor ≤ q - d ∧ q ≤ int64Max := by
  obtain ⟨pending, hpending⟩ := h.pending
  obtain ⟨hd, hle, hlast⟩ := hpending.chain.within ((hpending.held p q d).mp hp)
  exact ⟨hpending.published.le, hd, hle, Int.le_trans hlast h.range⟩

/-- The subtractions of a held range do not leave the range of `int64_t`. -/
theorem Inv.minusSize_held (h : Inv k gates s) (hk : k ≤ 63)
    (hp : (s.publisher p).held = some (q, d)) :
    minusSize q (2 ^ k) = q - 2 ^ k ∧ minusSize q d = q - d := by
  obtain ⟨hcursor, hd, hle, hq⟩ := h.held_within hp
  have hpow : 2 ^ k ≤ 2 ^ 63 := Nat.pow_le_pow_right (by decide) hk
  have hpos : 0 < 2 ^ k := Nat.two_pow_pos k
  simp only [int64Max] at hq
  constructor
  · rw [minusSize_eq]
    · push_cast
      rfl
    · omega
    · simp only [int64Max]
      omega
  · apply minusSize_eq
    · omega
    · simp only [int64Max]
      omega

/-! ### The steps -/

theorem Inv.move (h : Inv k gates s) {pc : Pc} (hheld : pc.held = (s.publisher p).held)
    (hpc : PcOk k gates s pc) : Inv k gates (s.setPublisher p pc) := by
  obtain ⟨pending, hpending⟩ := h.pending
  refine ⟨h.lastConsumer, h.range, ⟨pending, hpending.claims, hpending.published, hpending.chain, ?_⟩,
    h.gate, ?_, h.visible, h.room, h.kept⟩
  · intro p' q d
    rw [← hpending.held p' q d]
    by_cases hp' : p' = p
    · subst hp'
      simp only [State.setPublisher, Function.update_self, hheld]
    · simp only [State.setPublisher, Function.update_of_ne hp']
  · exact PcOk.update (s := s) (t := s.setPublisher p pc) (hpc.same rfl rfl rfl)
      (fun p' => (h.publisher p').same rfl rfl rfl) rfl

theorem Inv.check (hk : k ≤ 63) (h : Inv k gates s)
    (hs : step k longMax gates s (.check p) = some t) : Inv k gates t := by
  simp only [step] at hs
  split at hs
  · rename_i q d hpc
    have hp : (s.publisher p).held = some (q, d) := by rw [hpc]; rfl
    rw [(h.minusSize_held hk hp).1] at hs
    split at hs
    · cases hs
      exact h.move hp.symm (.begin_scan (Nat.zero_le _) fun i hi => absurd hi (Nat.not_lt_zero i))
    · rename_i hge
      cases hs
      refine h.move hp.symm (.write ?_)
      intro i hi
      rw [h.lastConsumer] at hge
      have hgate := (h.gate i hi).1
      omega
  · exact absurd hs (by simp)

theorem Inv.scan_gate (hk : k ≤ 63) (h : Inv k gates s)
    (hs : step k longMax gates s (.scan p) = some t) : Inv k gates t := by
  simp only [step] at hs
  split at hs
  · rename_i q d n m hpc
    have hp : (s.publisher p).held = some (q, d) := by rw [hpc]; rfl
    obtain ⟨hn, hm⟩ := (h.publisher p).scan q d n m hpc
    rw [(h.minusSize_held hk hp).1] at hs
    split at hs
    · rename_i hlt
      cases hs
      refine h.move hp.symm (.begin_scan hlt ?_)
      intro i hi
      rcases Nat.lt_succ_iff_lt_or_eq.mp hi with hi | rfl
      · have hmi := hm i hi
        split <;> omega
      · split <;> omega
    · split at hs
      · cases hs
        exact h.move hp.symm (.begin_scan (Nat.zero_le _) fun i hi => absurd hi (Nat.not_lt_zero i))
      · cases hs
        refine h.move hp.symm (.write ?_)
        intro i hi
        have hmi := hm i (by omega)
        omega
  · exact absurd hs (by simp)

theorem Inv.finish (h : Inv k gates s) (hs : step k longMax gates s (.finish p) = some t) :
    Inv k gates t := by
  simp only [step] at hs
  split at hs
  · rename_i q d hpc
    rw [Option.ite_none_right_eq_some, Option.some.injEq] at hs
    obtain ⟨hwritten, rfl⟩ := hs
    have hok := h.publisher p
    rw [hpc] at hok
    refine h.move (by rw [hpc]; rfl) (hok.synchronize ?_)
    intro j hj hj'
    have hoff := hwritten (q - j).toNat (by omega)
    rwa [Int.toNat_of_nonneg (by omega), Int.sub_sub_self] at hoff
  · exact absurd hs (by simp)

theorem Inv.synchronize (hk : k ≤ 63) (h : Inv k gates s)
    (hs : step k longMax gates s (.synchronize p) = some t) : Inv k gates t := by
  simp only [step] at hs
  split at hs
  · rename_i q d hpc
    have hp : (s.publisher p).held = some (q, d) := by rw [hpc]; rfl
    rw [(h.minusSize_held hk hp).2, Option.ite_none_left_eq_some, Option.some.injEq] at hs
    obtain ⟨hge, rfl⟩ := hs
    have hok := h.publisher p
    rw [hpc] at hok
    exact h.move hp.symm (hok.publish_at (Int.not_lt.mp hge))
  · exact absurd hs (by simp)

theorem Pending.claim {pending : List Claimed} (h : Pending s pending)
    (hpc : s.publisher p = .idle) (hd : 1 ≤ d) :
    Pending { s.setPublisher p (.check (s.lastClaimed + d) d) with
      lastClaimed := s.lastClaimed + d
      claims := s.claims ++ [⟨p, s.lastClaimed + d, d⟩] }
      (pending ++ [⟨p, s.lastClaimed + d, d⟩]) where
  claims := by
    show s.claims ++ _ = s.published ++ (pending ++ _)
    rw [h.claims, List.append_assoc]
  published := h.published
  chain := by
    apply h.chain.append
    exact ⟨hd, rfl, rfl⟩
  held := by
    intro p' q' d'
    rw [List.mem_append, List.mem_singleton, ← h.held p' q' d']
    by_cases hp' : p' = p
    · subst hp'
      simp only [State.setPublisher, Function.update_self, hpc, Pc.held, Claimed.mk.injEq, true_and,
        Option.some.injEq, Prod.mk.injEq, reduceCtorEq, false_or]
      exact ⟨fun he => ⟨he.1.symm, he.2.symm⟩, fun he => ⟨he.1.symm, he.2.symm⟩⟩
    · simp only [State.setPublisher, Function.update_of_ne hp', Claimed.mk.injEq, hp', false_and,
        or_false]

theorem Inv.claim (h : Inv k gates s) (hs : step k longMax gates s (.claim p d) = some t) :
    Inv k gates t := by
  simp only [step] at hs
  split at hs
  · rename_i hpc
    rw [Option.ite_none_right_eq_some, Option.some.injEq] at hs
    obtain ⟨⟨hdelta, _, hrange⟩, rfl⟩ := hs
    obtain ⟨pending, hpending⟩ := h.pending
    refine ⟨h.lastConsumer, hrange, ⟨_, hpending.claim hpc hdelta⟩, h.gate, ?_, h.visible, h.room,
      h.kept⟩
    exact PcOk.check.update (fun p' => (h.publisher p').same rfl rfl rfl) rfl
  · exact absurd hs (by simp)

theorem Pending.publish {pending : List Claimed} (h : Pending s pending)
    (hpc : s.publisher p = .publish q d) (hcursor : q - d ≤ s.cursor) :
    ∃ rest, Pending { s.setPublisher p .idle with
      cursor := s.cursor + d
      published := s.published ++ [⟨p, q, d⟩] } rest := by
  have hmem : ⟨p, q, d⟩ ∈ pending := (h.held p q d).mp (by rw [hpc]; rfl)
  obtain ⟨rest, rfl⟩ := h.chain.head hmem hcursor
  obtain ⟨hd, hseq, hrest⟩ := h.chain
  simp only at hseq
  subst hseq
  refine ⟨rest, ?_, ?_, hrest, fun p' q' d' => ?_⟩
  · show s.claims = (s.published ++ [_]) ++ rest
    rw [h.claims, List.append_assoc, List.singleton_append]
  · apply h.published.append
    exact ⟨hd, rfl, rfl⟩
  · have hheld := h.held p' q' d'
    rw [List.mem_cons] at hheld
    by_cases hp' : p' = p
    · subst hp'
      -- the publisher's own range was the first, and it holds no other
      simp only [State.setPublisher, Function.update_self, Pc.held, reduceCtorEq, false_iff]
      intro hin
      have hsame := hheld.mpr (.inr hin)
      rw [hpc, Pc.held, Option.some.injEq, Prod.mk.injEq] at hsame
      obtain ⟨hd', hle, _⟩ := hrest.within hin
      simp only at hd' hle
      omega
    · simp only [State.setPublisher, Function.update_of_ne hp', hheld, Claimed.mk.injEq, hp',
        false_and, false_or]

theorem Inv.publish (h : Inv k gates s) (hs : step k longMax gates s (.publish p) = some t) :
    Inv k gates t := by
  simp only [step] at hs
  split at hs
  · rename_i q d hpc
    rw [Option.some.injEq] at hs
    subst hs
    have hcursor := (h.publisher p).publish q d hpc
    have hcomplete := (h.publisher p).complete q d (by rw [hpc]; rfl)
    obtain ⟨pending, hpending⟩ := h.pending
    refine ⟨h.lastConsumer, h.range, hpending.publish hpc hcursor, ?_, ?_, ?_, h.room, h.kept⟩
    · intro i hi
      obtain ⟨h1, h2⟩ := h.gate i hi
      refine ⟨h1, ?_⟩
      show s.gating i ≤ s.cursor + d
      omega
    · refine PcOk.idle.update (fun p' => ?_) rfl
      refine (h.publisher p').mono (fun _ _ => Int.le_refl _) ?_ fun _ hj => hj
      show s.cursor ≤ s.cursor + d
      omega
    · intro j h0 hj
      have hj' : j ≤ s.cursor + d := hj
      by_cases hle : j ≤ s.cursor
      · exact h.visible j h0 hle
      · have hwithin := h.held_within (p := p) (q := q) (d := d) (by rw [hpc]; rfl)
        exact hcomplete j (by omega) (by omega)
  · exact absurd hs (by simp)

theorem Inv.write {offset : Nat} {value : T} (hk : k ≤ 63) (h : Inv k gates s)
    (hs : step k longMax gates s (.write p offset value) = some t) : Inv k gates t := by
  simp only [step] at hs
  split at hs
  · rename_i q d hpc
    rw [Option.ite_none_right_eq_some, Option.some.injEq] at hs
    obtain ⟨hoffset, rfl⟩ := hs
    have hwithin := h.held_within (p := p) (q := q) (d := d) (by rw [hpc]; rfl)
    have hreturned := (h.publisher p).returned q (by rw [hpc]; rfl)
    have hgrow : ∀ j, (s.written j).isSome →
        (Function.update s.written (q - offset) (some value) j).isSome := by
      intro j hj
      by_cases he : j = q - offset
      · rw [he, Function.update_self]
        rfl
      · rwa [Function.update_of_ne he]
    have hroom : ∀ i < gates, q - offset ≤ s.gating i + 2 ^ k := by
      intro i hi
      have hi' := hreturned i hi
      omega
    obtain ⟨pending, hpending⟩ := h.pending
    refine ⟨h.lastConsumer, h.range, ⟨pending, hpending.claims, hpending.published, hpending.chain,
      hpending.held⟩, h.gate, ?_, fun j h0 hj => hgrow j (h.visible j h0 hj), ?_, ?_⟩
    · intro p'
      exact (h.publisher p').mono (fun _ _ => Int.le_refl _) (Int.le_refl _) hgrow
    · intro j hj i hi
      by_cases he : j = q - offset
      · rw [he]
        exact hroom i hi
      · simp only [Function.update_of_ne he] at hj
        exact h.room j hj i hi
    · intro j v hj i hi hlt
      by_cases he : j = q - offset
      · simp only [he, Function.update_self, Option.some.injEq] at hj ⊢
        exact hj
      · -- a slot that a gating sequence has not passed is another one
        simp only [Function.update_of_ne he] at hj
        have hgate := (h.gate i hi).2
        have hne := slot_ne (k := k) (by omega) hlt (h.room j (by rw [hj]; rfl) i hi)
          (show s.gating i < q - offset by omega) (hroom i hi) he
        simp only [Function.update_of_ne hne]
        exact h.kept j v hj i hi hlt
  · exact absurd hs (by simp)

theorem Inv.regate {gating : Nat → Int} (h : Inv k gates s)
    (hgate : ∀ i < gates, s.gating i ≤ gating i ∧ gating i ≤ s.cursor) :
    Inv k gates { s with gating := gating } := by
  obtain ⟨pending, hpending⟩ := h.pending
  refine ⟨h.lastConsumer, h.range, ⟨pending, hpending.claims, hpending.published, hpending.chain,
    hpending.held⟩, ?_, ?_, h.visible, ?_, ?_⟩
  · intro i hi
    exact ⟨Int.le_trans (h.gate i hi).1 (hgate i hi).1, (hgate i hi).2⟩
  · intro p'
    exact (h.publisher p').mono (fun i hi => (hgate i hi).1) (Int.le_refl _) fun _ hj => hj
  · intro j hj i hi
    have hle := h.room j hj i hi
    have hgrow := (hgate i hi).1
    show j ≤ gating i + 2 ^ k
    omega
  · intro j v hj i hi hlt
    exact h.kept j v hj i hi (Int.lt_of_le_of_lt (hgate i hi).1 hlt)

theorem Inv.advance {gate : Nat} {sequence : Int} (h : Inv k gates s)
    (hs : step k longMax gates s (.advance gate sequence) = some t) : Inv k gates t := by
  simp only [step, Option.ite_none_right_eq_some, Option.some.injEq] at hs
  obtain ⟨⟨_, hge, hle⟩, rfl⟩ := hs
  apply h.regate
  intro i hi
  by_cases he : i = gate
  · rw [he, Function.update_self]
    exact ⟨hge, hle⟩
  · rw [Function.update_of_ne he]
    exact ⟨Int.le_refl _, (h.gate i hi).2⟩

theorem Inv.step (hk : k ≤ 63) {a : Action T} (h : Inv k gates s)
    (hs : step k longMax gates s a = some t) : Inv k gates t := by
  cases a with
  | claim p d => exact h.claim hs
  | check p => exact h.check hk hs
  | scan p => exact h.scan_gate hk hs
  | write p offset value => exact h.write hk hs
  | finish p => exact h.finish hs
  | synchronize p => exact h.synchronize hk hs
  | publish p => exact h.publish hs
  | advance gate sequence => exact h.advance hs

/-! ### Batch publishing -/

/-- What holds in every state of a sequencer with `2 ^ k` slots. -/
structure BatchPublishing (k gates : Nat) (s : State T) : Prop where
  /-- the claimed ranges follow each other from 0 -/
  contiguous : Chain (-1) s.claims s.lastClaimed
  disjoint : s.claims.Pairwise fun c c' : Claimed => c.sequence ≤ c'.sequence - c'.delta
  /-- a returned claim is within one ring of every gating sequence -/
  capacity : ∀ p q, (s.publisher p).returned = some q → ∀ i < gates, q - 2 ^ k ≤ s.gating i
  /-- the slot of a sequence holds its value until every gating sequence has passed it -/
  kept : ∀ j v, s.written j = some v → ∀ i < gates, s.gating i < j →
    s.events (ringIndex (2 ^ k) j) = v
  written : ∀ j, 0 ≤ j → j ≤ s.cursor → (s.written j).isSome
  /-- the ranges become visible in claim order -/
  visible : s.published <+: s.claims ∧ Chain (-1) s.published s.cursor

theorem batch_publishing [Inhabited T] (hk : k ≤ 63)
    (h : (machine (T := T) k longMax gates).Reachable s) : BatchPublishing k gates s := by
  have hinv : Inv k gates s :=
    h.invariant (P := Inv k gates) Inv.initial fun _ _ _ hi hs => hi.step hk hs
  obtain ⟨pending, hpending⟩ := hinv.pending
  have hchain : Chain (-1) s.claims s.lastClaimed := by
    rw [hpending.claims]
    exact hpending.published.append hpending.chain
  refine ⟨hchain, hchain.pairwise, fun p => (hinv.publisher p).returned, hinv.kept, hinv.visible, ?_,
    hpending.published⟩
  rw [hpending.claims]
  exact List.prefix_append _ _

/-- Two publishers with batches of two and of one in a ring of two slots; the second waits for the
consumer, and its slot is the one of sequence 0. -/
theorem batch_publishing_two : ∃ s : State Nat, s.cursor = 2 ∧ s.events 0 = 9 ∧
    BatchPublishing 1 1 s := by
  obtain ⟨s, hs, hc, he⟩ : ∃ s : State Nat, (machine 1 int64Max 1).exec initial
      [.claim 0 2, .claim 1 1, .check 1, .scan 1, .check 0, .write 0 1 7, .write 0 0 8, .finish 0,
        .synchronize 0, .publish 0, .advance 0 0, .scan 1, .scan 1, .scan 1, .write 1 0 9, .finish 1,
        .synchronize 1, .publish 1] = some s ∧ s.cursor = 2 ∧ s.events 0 = 9 := ⟨_, rfl, rfl, rfl⟩
  exact ⟨s, hc, he, batch_publishing (by decide) (Machine.reachable_of_exec hs)⟩

end Dumbo.Disruptor.Sequencer
