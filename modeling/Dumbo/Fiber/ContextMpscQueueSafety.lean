import Dumbo.Fiber.ContextMpscQueue

/-!
# `context_mpsc_queue` is first in, first out

From `tail_` to `head_` the nodes of the queue are chained in the order of the exchanges, except for the links
that are still to be stored.
-/

namespace Dumbo.Fiber.ContextMpscQueue

open Transition

variable {Θ C : Type*} {s s' : State Θ C} {rest : List (Node C)} {t u : Θ} {n m : Node C} {c d : C}

def Node.isCtx : Node C → Bool
  | .dummy => false
  | .ctx _ => true

/-- The link from the first node to the second is still to be stored. -/
def State.Pending (s : State Θ C) (n m : Node C) : Prop :=
  (∃ t c, s.pushing t = .link n c ∧ m = .ctx c) ∨ (s.popping = .link n ∧ m = .dummy)

/-- What holds at a place of `pop`. -/
def PopOk (s : State Θ C) (queue : List (Node C)) : PopPc C → Prop
  | .idle => True
  | .next | .head | .link _ | .last => s.tail ≠ .dummy
  | .clear => .dummy ∉ queue
  | .exchange => .dummy ∉ queue ∧ s.next .dummy = none

structure Inv (s : State Θ C) (rest : List (Node C)) : Prop where
  chained : Chained s.next s.Pending (s.tail :: rest)
  head : (s.tail :: rest).getLast? = some s.head
  contents : s.pushed.map .ctx = s.popped ++ (s.tail :: rest).filter Node.isCtx
  fresh : ∀ t c, s.pushing t = .exchange c → .ctx c ∉ s.tail :: rest ∧ s.next (.ctx c) = none
  own : ∀ t u c, (s.pushing t).ctx = some c → (s.pushing u).ctx = some c → t = u
  popping : PopOk s (s.tail :: rest) s.popping

theorem isCtx_iff : n.isCtx = true ↔ n ≠ .dummy := by
  cases n <;> simp [Node.isCtx]

theorem mem_concat {l : List (Node C)} : n ∈ l ++ [m] ↔ n ∈ l ∨ n = m := by
  rw [List.mem_append, List.mem_singleton]

/-- The contexts of the chain are those that wait. -/
theorem Inv.waiting (h : Inv s rest) : s.waiting.map .ctx = (s.tail :: rest).filter Node.isCtx := by
  rw [State.waiting, List.map_drop, h.contents, List.drop_left]

theorem Inv.mem_waiting (h : Inv s rest) : c ∈ s.waiting ↔ .ctx c ∈ s.tail :: rest := by
  have hctx : ∀ e : C, Node.ctx e = Node.ctx c ↔ e = c := fun e => Node.ctx.injEq e c ▸ Iff.rfl
  have hmem : .ctx c ∈ s.waiting.map Node.ctx ↔ c ∈ s.waiting := by
    simp [List.mem_map, hctx]
  rw [← hmem, h.waiting, List.mem_filter]
  exact and_iff_left rfl

theorem Inv.tail_ne (h : Inv s rest) (hpop : s.popping ≠ .idle) : s.tail ≠ .dummy := by
  have hok := h.popping
  cases hp : s.popping with
  | idle => exact absurd hp hpop
  | next | head | link prev | last =>
    rw [hp] at hok
    exact hok
  | clear =>
    rw [hp] at hok
    exact fun htail => hok (htail ▸ List.mem_cons_self)
  | exchange =>
    rw [hp] at hok
    exact fun htail => hok.1 (htail ▸ List.mem_cons_self)

theorem Inv.alone (h : Inv s rest) (heq : s.tail = s.head) : rest = [] := by
  cases rest with
  | nil => rfl
  | cons m rest =>
    have hlast := h.head
    rw [List.getLast?_cons_cons, ← heq] at hlast
    exact absurd (List.mem_of_getLast? hlast) (List.nodup_cons.mp h.chained.nodup).1

/-! ### The steps of `pop` -/

theorem Inv.goto (h : Inv s rest) {pc : PopPc C} (hnot : ∀ prev, s.popping ≠ .link prev ∧ pc ≠ .link prev)
    (hpc : PopOk s (s.tail :: rest) pc) : Inv { s with popping := pc } rest := by
  have hpending : State.Pending { s with popping := pc } = s.Pending := by
    funext n m
    simp [State.Pending, hnot]
  exact { h with chained := hpending ▸ h.chained, popping := hpc }

theorem Inv.advance (h : Inv s rest) (hnext : s.next s.tail = some n) :
    ∃ rest', rest = n :: rest' ∧ Chained s.next s.Pending (n :: rest') ∧ s.tail ∉ n :: rest' := by
  obtain ⟨hhead, hchained⟩ := h.chained.tail hnext
  cases rest with
  | nil => cases hhead
  | cons m rest =>
    cases hhead
    exact ⟨rest, rfl, hchained, (List.nodup_cons.mp h.chained.nodup).1⟩

theorem Inv.exchangeDummy (h : Inv s rest) (hpc : s.popping = .exchange) :
    Inv { s with head := .dummy, popping := .link s.head } (rest ++ [.dummy]) := by
  have hok := h.popping
  rw [hpc] at hok
  obtain ⟨hmem, hnone⟩ := hok
  have htail := h.tail_ne (by simp [hpc])
  refine ⟨?_, ?_, ?_, fun t c hc => ?_, h.own, htail⟩
  · apply h.chained.append h.head hmem hnone
    intro x y
    simp [State.Pending, hpc, eq_comm]
  · rw [← List.cons_append, List.getLast?_concat]
  · rw [h.contents, ← List.cons_append, List.filter_append]
    simp [Node.isCtx]
  · obtain ⟨hout, hfree⟩ := h.fresh t c hc
    refine ⟨?_, hfree⟩
    rw [← List.cons_append, mem_concat]
    simp [hout]

theorem Inv.take (h : Inv s rest) (hnext : s.next s.tail = some n) (htail : s.tail ≠ .dummy)
    (hnot : ∀ prev, s.popping ≠ .link prev) : ∃ rest', Inv (s.take n) rest' := by
  obtain ⟨rest', rfl, hchained, -⟩ := h.advance hnext
  have hpending : (s.take n).Pending = s.Pending := by
    funext x y
    simp [State.Pending, State.take, hnot]
  have hcontents := h.contents
  rw [List.filter_cons_of_pos (isCtx_iff.mpr htail)] at hcontents
  refine ⟨rest', hpending ▸ hchained, ?_, ?_, fun t c hc => ?_, h.own, trivial⟩
  · have hlast := h.head
    rwa [List.getLast?_cons_cons] at hlast
  · show s.pushed.map .ctx = (s.popped ++ [s.tail]) ++ (n :: rest').filter Node.isCtx
    rw [hcontents, List.append_assoc]
    rfl
  · obtain ⟨hmem, hnone⟩ := h.fresh t c hc
    exact ⟨fun hin => hmem (List.mem_cons_of_mem _ hin), hnone⟩

theorem Inv.skip (h : Inv s rest) (hnext : s.next s.tail = some n) (htail : s.tail = .dummy)
    (hnot : ∀ prev, s.popping ≠ .link prev) :
    ∃ rest', Inv { s with tail := n, popping := .next } rest' := by
  obtain ⟨rest', rfl, hchained, hout⟩ := h.advance hnext
  have hpending : State.Pending { s with tail := n, popping := .next } = s.Pending := by
    funext x y
    simp [State.Pending, hnot]
  have hcontents := h.contents
  rw [List.filter_cons_of_neg (by rw [htail]; simp [Node.isCtx])] at hcontents
  refine ⟨rest', hpending ▸ hchained, ?_, hcontents, fun t c hc => ?_, h.own, ?_⟩
  · have hlast := h.head
    rwa [List.getLast?_cons_cons] at hlast
  · obtain ⟨hmem, hnone⟩ := h.fresh t c hc
    exact ⟨fun hin => hmem (List.mem_cons_of_mem _ hin), hnone⟩
  · rintro rfl
    exact hout (htail ▸ List.mem_cons_self)

section Steps

variable [DecidableEq C]

@[simp]
theorem setNext_self (s : State Θ C) (n : Node C) (o : Option (Node C)) : (s.setNext n o).next n = o :=
  Function.update_self _ _ _

theorem setNext_of_ne (s : State Θ C) (o : Option (Node C)) (hm : m ≠ n) :
    (s.setNext n o).next m = s.next m := Function.update_of_ne hm _ _

omit [DecidableEq C] in
theorem Inv.pop (h : Inv s rest) (hidle : s.popping = .idle) : ∃ rest', Inv s.pop rest' := by
  have hnot : ∀ prev, s.popping ≠ .link prev := by simp [hidle]
  rw [State.pop]
  split
  · exact ⟨rest, h⟩
  · rename_i n htail hnext
    exact h.skip (htail ▸ hnext) htail hnot
  · rename_i c n htail hnext
    exact h.take hnext (by simp [htail]) hnot
  · rename_i c htail hnext
    refine ⟨rest, h.goto (by simp [hidle]) ?_⟩
    show s.tail ≠ .dummy
    simp [htail]

theorem Inv.linkDummy (h : Inv s rest) {prev : Node C} (hpc : s.popping = .link prev) :
    Inv { s.setNext prev (some .dummy) with popping := .last } rest := by
  have hpending : s.Pending prev .dummy := .inr ⟨hpc, rfl⟩
  have hmem : prev ∈ s.tail :: rest := (h.chained.pending _ _ hpending).2.mem_left
  have htail := h.tail_ne (by simp [hpc])
  refine ⟨?_, h.head, h.contents, fun t c hc => ?_, h.own, htail⟩
  · apply h.chained.store hpending
    intro x y
    constructor
    · intro hxy
      rcases hxy with ⟨t, c, hc, rfl⟩ | ⟨hlink, -⟩
      · have hold : s.Pending x (.ctx c) := .inl ⟨t, c, hc, rfl⟩
        refine ⟨hold, ?_⟩
        rintro rfl
        cases h.chained.pending_unique hpending hold
      · cases hlink
    · rintro ⟨hxy, hne⟩
      rcases hxy with hpush | ⟨hlink, -⟩
      · exact .inl hpush
      · cases hpc.symm.trans hlink
        exact absurd rfl hne
  · obtain ⟨hout, hfree⟩ := h.fresh t c hc
    refine ⟨hout, (setNext_of_ne s _ ?_).trans hfree⟩
    rintro rfl
    exact hout hmem

theorem Inv.goPop (h : Inv s rest) (hs : s.goPop = some s') : ∃ rest', Inv s' rest' := by
  rw [State.goPop] at hs
  split at hs
  · cases hs
  · rename_i hpc
    have htail := h.tail_ne (by simp [hpc])
    split at hs
    · rename_i n hnext
      cases hs
      exact h.take hnext htail (by simp [hpc])
    · cases hs
      exact ⟨rest, h.goto (by simp [hpc]) htail⟩
  · rename_i hpc
    cases hs
    refine ⟨rest, h.goto ?_ ?_⟩
    · split <;> simp [hpc]
    · split
      · rename_i heq
        have htail := h.tail_ne (by simp [hpc])
        rw [h.alone heq]
        show .dummy ∉ [s.tail]
        simp [Ne.symm htail]
      · trivial
  · rename_i hpc
    cases hs
    have hok : .dummy ∉ s.tail :: rest := by
      have hok := h.popping
      rwa [hpc] at hok
    have hcleared : Inv (s.setNext .dummy none) rest := by
      refine ⟨h.chained.clear hok, h.head, h.contents, fun t c hc => ?_, h.own, ?_⟩
      · obtain ⟨hout, hfree⟩ := h.fresh t c hc
        exact ⟨hout, (setNext_of_ne s none (by simp)).trans hfree⟩
      · show PopOk _ _ s.popping
        rw [hpc]
        exact hok
    exact ⟨rest, hcleared.goto (by simp [State.setNext, hpc]) ⟨hok, setNext_self s _ _⟩⟩
  · rename_i hpc
    cases hs
    exact ⟨_, h.exchangeDummy hpc⟩
  · rename_i prev hpc
    cases hs
    exact ⟨rest, h.linkDummy hpc⟩
  · rename_i hpc
    have htail := h.tail_ne (by simp [hpc])
    split at hs
    · rename_i n hnext
      cases hs
      exact h.take hnext htail (by simp [hpc])
    · cases hs
      exact ⟨rest, h.goto (by simp [hpc]) trivial⟩

/-! ### The steps of `push` -/

variable [DecidableEq Θ]

omit [DecidableEq C] in
theorem setPushing_pushing (s : State Θ C) (t u : Θ) (pc : PushPc C) :
    (s.setPushing t pc).pushing u = if u = t then pc else s.pushing u :=
  Function.update_apply s.pushing t pc u

theorem Inv.push (h : Inv s rest) (hidle : s.pushing t = .idle)
    (hok : c ∉ s.waiting ∧ ∀ u, (s.pushing u).ctx ≠ some c) : Inv (s.push t c) rest := by
  have hout : .ctx c ∉ s.tail :: rest := fun hin => hok.1 (h.mem_waiting.mpr hin)
  have hpushing : ∀ u, (s.push t c).pushing u = if u = t then .exchange c else s.pushing u := fun u =>
    setPushing_pushing _ t u _
  have hpending : (s.push t c).Pending = s.Pending := by
    funext n m
    have hlink : ∀ u d, (s.push t c).pushing u = .link n d ↔ s.pushing u = .link n d := by
      intro u d
      rw [hpushing]
      split
      · rename_i hu
        simp [hu, hidle]
      · exact Iff.rfl
    simp only [State.Pending, hlink]
    rfl
  refine ⟨?_, h.head, h.contents, fun u d hd => ?_, fun u v d hu hv => ?_, ?_⟩
  · rw [hpending]
    exact h.chained.clear hout
  · rw [hpushing] at hd
    split at hd
    · cases hd
      exact ⟨hout, setNext_self s _ _⟩
    · obtain ⟨hdout, hfree⟩ := h.fresh u d hd
      refine ⟨hdout, (setNext_of_ne s none ?_).trans hfree⟩
      intro heq
      cases heq
      exact hok.2 u (by rw [hd]; rfl)
  · rw [hpushing] at hu hv
    split at hu <;> split at hv
    · rename_i hut hvt
      rw [hut, hvt]
    · cases hu
      exact absurd hv (hok.2 v)
    · cases hv
      exact absurd hu (hok.2 u)
    · exact h.own u v d hu hv
  · have hpopping := h.popping
    show PopOk _ _ s.popping
    cases hp : s.popping with
    | exchange =>
      rw [hp] at hpopping
      exact ⟨hpopping.1, (setNext_of_ne (n := .ctx c) s none (by simp)).trans hpopping.2⟩
    | _ =>
      rw [hp] at hpopping
      exact hpopping

omit [DecidableEq C] in
theorem Inv.exchange (h : Inv s rest) (hpc : s.pushing t = .exchange c) :
    Inv ({ s with head := .ctx c, pushed := s.pushed ++ [c] }.setPushing t (.link s.head c))
      (rest ++ [.ctx c]) := by
  obtain ⟨hout, hnone⟩ := h.fresh t c hpc
  have hown : (s.pushing t).ctx = some c := by
    rw [hpc]
    rfl
  have hpushing : ∀ u, ({ s with head := .ctx c, pushed := s.pushed ++ [c] }.setPushing t
      (.link s.head c)).pushing u = if u = t then .link s.head c else s.pushing u := fun u =>
    setPushing_pushing _ t u _
  refine ⟨?_, ?_, ?_, fun u d hd => ?_, fun u v d hu hv => ?_, ?_⟩
  · apply h.chained.append h.head hout hnone
    intro n m
    constructor
    · intro hnm
      rcases hnm with ⟨u, d, hd, rfl⟩ | hpop
      · rw [hpushing] at hd
        split at hd
        · cases hd
          exact .inr ⟨rfl, rfl⟩
        · exact .inl (.inl ⟨u, d, hd, rfl⟩)
      · exact .inl (.inr hpop)
    · intro hnm
      rcases hnm with (⟨u, d, hd, rfl⟩ | hpop) | ⟨rfl, rfl⟩
      · refine .inl ⟨u, d, ?_, rfl⟩
        rw [hpushing, if_neg, hd]
        rintro rfl
        cases hpc.symm.trans hd
      · exact .inr hpop
      · exact .inl ⟨t, c, by rw [hpushing, if_pos rfl], rfl⟩
  · rw [← List.cons_append, List.getLast?_concat]
    rfl
  · show (s.pushed ++ [c]).map .ctx = s.popped ++ (s.tail :: (rest ++ [.ctx c])).filter Node.isCtx
    rw [List.map_append, h.contents, ← List.cons_append, List.filter_append, List.append_assoc]
    rfl
  · rw [hpushing] at hd
    split at hd
    · cases hd
    · rename_i hu
      obtain ⟨hdout, hfree⟩ := h.fresh u d hd
      refine ⟨?_, hfree⟩
      show .ctx d ∉ s.tail :: (rest ++ [.ctx c])
      rw [← List.cons_append, mem_concat]
      rintro (hin | heq)
      · exact hdout hin
      · cases heq
        exact hu (h.own u t c (by rw [hd]; rfl) hown)
  · have hkeep : ∀ w, (if w = t then PushPc.link s.head c else s.pushing w).ctx = (s.pushing w).ctx := by
      intro w
      split
      · rename_i hw
        rw [hw, hown]
        rfl
      · rfl
    rw [hpushing, hkeep] at hu hv
    exact h.own u v d hu hv
  · have hpopping := h.popping
    show PopOk _ _ s.popping
    have hdummy : .dummy ∉ s.tail :: rest → .dummy ∉ s.tail :: (rest ++ [.ctx c]) := by
      intro hnot
      rw [← List.cons_append, mem_concat]
      simp [hnot]
    cases hp : s.popping with
    | clear =>
      rw [hp] at hpopping
      exact hdummy hpopping
    | exchange =>
      rw [hp] at hpopping
      exact ⟨hdummy hpopping.1, hpopping.2⟩
    | _ =>
      rw [hp] at hpopping
      exact hpopping

theorem Inv.link (h : Inv s rest) {prev : Node C} (hpc : s.pushing t = .link prev c) :
    Inv ((s.setNext prev (some (.ctx c))).setPushing t .idle) rest := by
  have hpending : s.Pending prev (.ctx c) := .inl ⟨t, c, hpc, rfl⟩
  have hmem : prev ∈ s.tail :: rest := (h.chained.pending _ _ hpending).2.mem_left
  have hown : (s.pushing t).ctx = some c := by
    rw [hpc]
    rfl
  have hpushing : ∀ u, ((s.setNext prev (some (.ctx c))).setPushing t .idle).pushing u =
      if u = t then .idle else s.pushing u := fun u => setPushing_pushing _ t u _
  have hkeep : ∀ {n}, n ∉ s.tail :: rest → s.next n = none →
      (s.setNext prev (some (.ctx c))).next n = none := by
    intro n hout hnone
    refine (setNext_of_ne s _ ?_).trans hnone
    rintro rfl
    exact hout hmem
  refine ⟨?_, h.head, h.contents, fun u d hd => ?_, fun u v d hu hv => ?_, ?_⟩
  · apply h.chained.store hpending
    intro n m
    constructor
    · intro hnm
      rcases hnm with ⟨u, d, hd, rfl⟩ | ⟨hpop, rfl⟩
      · rw [hpushing] at hd
        split at hd
        · cases hd
        · rename_i hu
          have hold : s.Pending n (.ctx d) := .inl ⟨u, d, hd, rfl⟩
          refine ⟨hold, ?_⟩
          rintro rfl
          cases h.chained.pending_unique hpending hold
          exact hu (h.own u t c (by rw [hd]; rfl) hown)
      · have hold : s.Pending n .dummy := .inr ⟨hpop, rfl⟩
        refine ⟨hold, ?_⟩
        rintro rfl
        cases h.chained.pending_unique hpending hold
    · rintro ⟨hnm, hne⟩
      rcases hnm with ⟨u, d, hd, rfl⟩ | hpop
      · refine .inl ⟨u, d, ?_, rfl⟩
        rw [hpushing, if_neg, hd]
        rintro rfl
        cases hpc.symm.trans hd
        exact hne rfl
      · exact .inr hpop
  · rw [hpushing] at hd
    split at hd
    · cases hd
    · obtain ⟨hout, hfree⟩ := h.fresh u d hd
      exact ⟨hout, hkeep hout hfree⟩
  · rw [hpushing] at hu hv
    split at hu
    · cases hu
    · split at hv
      · cases hv
      · exact h.own u v d hu hv
  · have hpopping := h.popping
    show PopOk _ _ s.popping
    cases hp : s.popping with
    | exchange =>
      rw [hp] at hpopping
      exact ⟨hpopping.1, hkeep hpopping.1 hpopping.2⟩
    | _ =>
      rw [hp] at hpopping
      exact hpopping

theorem Inv.goPush (h : Inv s rest) (hs : s.goPush t = some s') : ∃ rest', Inv s' rest' := by
  rw [State.goPush] at hs
  split at hs
  · cases hs
  · rename_i c hpc
    cases hs
    exact ⟨_, h.exchange hpc⟩
  · rename_i prev c hpc
    cases hs
    exact ⟨rest, h.link hpc⟩

/-! ### Runs -/

variable {a : Action Θ C}

theorem Inv.step (h : Inv s rest) (hok : PushesUnlinked s a) (hs : step s a = some s') :
    ∃ rest', Inv s' rest' := by
  cases a with
  | push t c =>
    obtain ⟨hidle, rfl⟩ := Option.ite_none_right_eq_some.mp hs |>.imp_right Option.some.inj
    exact ⟨rest, h.push hidle hok⟩
  | goPush t => exact h.goPush hs
  | pop =>
    obtain ⟨hidle, rfl⟩ := Option.ite_none_right_eq_some.mp hs |>.imp_right Option.some.inj
    exact h.pop hidle
  | goPop => exact h.goPop hs

omit [DecidableEq C] [DecidableEq Θ] in
theorem Inv.create : Inv (create : State Θ C) [] := by
  refine ⟨Chained.singleton rfl fun n m hnm => ?_, rfl, rfl, fun t c hc => ?_, fun t u c ht => ?_, trivial⟩
  · rcases hnm with ⟨t, c, hc, -⟩ | ⟨hpop, -⟩
    · cases hc
    · cases hpop
  · cases hc
  · cases ht

theorem Inv.of_reachable (h : (machine Θ C).ReachableWith PushesUnlinked s) : ∃ rest, Inv s rest :=
  h.invariant (P := fun s => ∃ rest, Inv s rest) ⟨[], Inv.create⟩
    fun _ _ _ hinv hok hs => hinv.elim fun _ hi => hi.step hok hs

theorem reachable_of_exec [Fintype Θ] (as : List (Action Θ C))
    (he : ((machine Θ C).guarded fun s a => decide (PushesUnlinked s a)).exec (machine Θ C).start as = some s) :
    (machine Θ C).ReachableWith PushesUnlinked s :=
  (Machine.reachableWith_of_exec he).mono fun _ _ => of_decide_eq_true

/-- Whatever the threads push, the results of `pop` are the contexts in the order of the exchanges, each once;
and a link is stored behind the dummy or a context that is still in the queue, to a context that is. -/
theorem context_mpsc_queue_fifo (h : (machine Θ C).ReachableWith PushesUnlinked s) :
    s.popped <+: s.pushed.map .ctx ∧ s.waiting.Nodup ∧
      ∀ t prev c, s.pushing t = .link prev c → c ∈ s.waiting ∧ ∀ d, prev = .ctx d → d ∈ s.waiting := by
  obtain ⟨rest, hinv⟩ := Inv.of_reachable h
  refine ⟨⟨_, hinv.contents.symm⟩, ?_, fun t prev c hc => ?_⟩
  · have hnodup := hinv.chained.nodup.filter Node.isCtx
    rw [← hinv.waiting] at hnodup
    exact hnodup.of_map _
  · obtain ⟨-, hadj⟩ := hinv.chained.pending prev (.ctx c) (.inl ⟨t, c, hc, rfl⟩)
    refine ⟨hinv.mem_waiting.mpr (List.mem_of_mem_tail hadj.mem_tail), fun d hd => ?_⟩
    exact hinv.mem_waiting.mpr (hd ▸ hadj.mem_left)

/-- One thread exchanges, another exchanges behind it and stores its link first. -/
theorem context_mpsc_queue_fifo_overtaken : ∃ s : State Bool Nat, s.pushed = [7, 8] ∧
    s.pushing true = .idle ∧ s.pushing false = .link .dummy 7 ∧ s.popped <+: s.pushed.map .ctx ∧
    7 ∈ s.waiting := by
  obtain ⟨s, hs, hpushed, htrue, hfalse⟩ : ∃ s : State Bool Nat,
      (machine Bool Nat).ReachableWith PushesUnlinked s ∧ s.pushed = [7, 8] ∧ s.pushing true = .idle ∧
      s.pushing false = .link .dummy 7 := by
    exact ⟨_, reachable_of_exec [.push false 7, .goPush false, .push true 8, .goPush true,
      .goPush true] rfl, rfl, rfl, rfl⟩
  obtain ⟨hpre, -, hlinks⟩ := context_mpsc_queue_fifo hs
  exact ⟨s, hpushed, htrue, hfalse, hpre, (hlinks false .dummy 7 hfalse).1⟩

end Steps

end Dumbo.Fiber.ContextMpscQueue
