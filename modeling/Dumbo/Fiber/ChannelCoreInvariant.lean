import Dumbo.Fiber.BufferedFifo
import Dumbo.Fiber.ChannelCore
import Dumbo.Lib.Mask

/-!
# Slots and threads of the lock-free core

The slot of an index is free for it from the release of the index one round before, until its value has
been stored; then it is full, until it is released. A thread that has won an index is alone with its slot.
This holds of the runs in which no thread sleeps before its compare-exchange while the counter goes all
the way round.
-/

namespace Dumbo.Fiber.ChannelCore

open Transition BufferedChannel

variable {Θ α : Type*}

/-- The thread has won the index of a push. -/
def Pc.Writes (n : Nat) : Pc α → Prop
  | .pushWrite _ _ index | .pushStore _ index => index = n
  | _ => False

/-- The thread has won the index of a pop. -/
def Pc.Reads (n : Nat) : Pc α → Prop
  | .popRead _ index | .popStore _ _ index => index = n
  | _ => False

/-- A slot that does not match the index of the next push is of no use to it. -/
def ThreadOk (m : Nat) (s : State Θ α) : Pc α → Prop
  | .idle | .pushLoad _ | .popLoad => True
  | .pushCycle _ idx seen => idx = seen % sizeMax ∧ seen ≤ s.pushed.length
  | .pushExchange _ idx seen => idx = seen % sizeMax ∧ seen ≤ s.pushed.length ∧
      (seen = s.pushed.length → s.turn (seen % m) = seen)
  | .pushWrite value idx n => idx = n % sizeMax ∧ s.pushed[n]? = some value ∧ s.turn (n % m) = n
  | .pushStore idx n => idx = n % sizeMax ∧ n < s.pushed.length ∧ s.turn (n % m) = n ∧
      (s.ring.slots (n % m)).storage = s.pushed[n]?
  | .popCycle idx seen => idx = seen % sizeMax ∧ seen ≤ s.popped
  | .popExchange idx seen => idx = seen % sizeMax ∧ seen ≤ s.popped ∧
      (seen = s.popped → s.turn (seen % m) = seen + 1)
  | .popRead idx n => idx = n % sizeMax ∧ n < s.popped ∧ s.turn (n % m) = n + 1
  | .popStore value idx n => idx = n % sizeMax ∧ n < s.popped ∧ s.turn (n % m) = n + 1 ∧
      value = s.pushed[n]?

structure Inv (m : Nat) (s : State Θ α) : Prop where
  capacity : s.ring.capacity = m
  producerIdx : s.ring.producerIdx = s.pushed.length % sizeMax
  consumerIdx : s.ring.consumerIdx = s.popped % sizeMax
  cycle : ∀ n, (s.ring.slots (n % m)).cycle = s.turn (n % m) % sizeMax
  slot : ∀ n, ∃ i, i % m = n % m ∧ (s.turn (n % m) = i ∨ s.turn (n % m) = i + 1)
  free : ∀ n, s.turn (n % m) = n →
    s.popped ≤ n ∧ n < s.popped + m ∧ s.pushed.length ≤ n + m
  full : ∀ n, s.turn (n % m) = n + 1 →
    n < s.pushed.length ∧ n < s.popped + m ∧ s.pushed.length ≤ n + m ∧
      (s.ring.slots (n % m)).storage = s.pushed[n]?
  popped_le : s.popped ≤ s.pushed.length
  thread : ∀ t, ThreadOk m s (s.pc t)
  writes : ∀ t t' n, (s.pc t).Writes n → (s.pc t').Writes n → t = t'
  reads : ∀ t t' n, (s.pc t).Reads n → (s.pc t').Reads n → t = t'
  writer : ∀ n, n < s.pushed.length → s.turn (n % m) = n → ∃ t, (s.pc t).Writes n
  released : ∀ n, n ∈ s.returned.map Prod.fst ↔ n + m ≤ s.turn (n % m)
  nodup : (s.returned.map Prod.fst).Nodup
  returned : ∀ n v, (n, v) ∈ s.returned → n < s.popped ∧ v = s.pushed[n]?

/-! ### Words -/

section Words

variable {a b : Nat}

/-- Counters closer than the range of `size_t` are told apart by their words. -/
theorem eq_of_word_eq (h : a % sizeMax = b % sizeMax) (hab : a < b + sizeMax) (hba : b < a + sizeMax) :
    a = b :=
  eq_of_mod_eq h hab hba

theorem word_eq_of_difference (h : difference a b = 0) : a % sizeMax = b % sizeMax := by
  rw [difference, Int.bmod_eq_emod] at h
  rw [sizeMax]
  split_ifs at h <;> omega

theorem word_succ (n : Nat) : (n % sizeMax + 1) % sizeMax = (n + 1) % sizeMax :=
  Nat.mod_add_mod _ _ _

end Words

variable {m : Nat} {s u : State Θ α}

theorem Inv.slot_cases (h : Inv m s) (n : Nat) : ∃ i, i % m = n % m ∧
    (s.turn (n % m) = i ∧ s.popped ≤ i ∧ i < s.popped + m ∧ s.pushed.length ≤ i + m ∨
      s.turn (n % m) = i + 1 ∧ i < s.pushed.length ∧ i < s.popped + m ∧ s.pushed.length ≤ i + m) := by
  obtain ⟨i, hi, hturn | hturn⟩ := h.slot n
  · exact ⟨i, hi, .inl ⟨hturn, h.free i (hi ▸ hturn)⟩⟩
  · obtain ⟨hlt, hround, hle, -⟩ := h.full i (hi ▸ hturn)
    exact ⟨i, hi, .inr ⟨hturn, hlt, hround, hle⟩⟩

theorem Inv.pushed_le (h : Inv m s) : s.pushed.length ≤ s.popped + m := by
  obtain ⟨i, hi, hfree | hfull⟩ := h.slot_cases s.popped
  · obtain ⟨-, hle, hlt, hround⟩ := hfree
    by_contra hcon
    have hge := add_le_of_mod_eq hi.symm (by omega)
    omega
  · obtain ⟨-, -, hlt, hround⟩ := hfull
    by_contra hcon
    have hge := add_le_of_mod_eq hi.symm (by omega)
    omega

/-! ### One thread moves -/

theorem ThreadOk.writes {pc : Pc α} {n : Nat} (h : ThreadOk m s pc) (hw : pc.Writes n) :
    n < s.pushed.length ∧ s.turn (n % m) = n := by
  cases pc with
  | pushWrite value idx index =>
    obtain rfl : index = n := hw
    exact ⟨(List.getElem?_eq_some_iff.mp h.2.1).1, h.2.2⟩
  | pushStore idx index =>
    obtain rfl : index = n := hw
    exact ⟨h.2.1, h.2.2.1⟩
  | _ => exact hw.elim

theorem ThreadOk.reads {pc : Pc α} {n : Nat} (h : ThreadOk m s pc) (hr : pc.Reads n) :
    n < s.popped ∧ s.turn (n % m) = n + 1 := by
  cases pc with
  | popRead idx index =>
    obtain rfl : index = n := hr
    exact ⟨h.2.1, h.2.2⟩
  | popStore value idx index =>
    obtain rfl : index = n := hr
    exact ⟨h.2.1, h.2.2.1⟩
  | _ => exact hr.elim

/-- What a thread relies on, where others move. -/
theorem ThreadOk.mono {pc : Pc α} (h : ThreadOk m s pc) (hle : s.popped ≤ s.pushed.length)
    (hpushed : ∃ l, u.pushed = s.pushed ++ l) (hpopped : s.popped ≤ u.popped)
    (hturn : ∀ n, pc.Writes n ∨ pc.Reads n → u.turn (n % m) = s.turn (n % m))
    (hstorage : ∀ n, pc.Writes n →
      (u.ring.slots (n % m)).storage = (s.ring.slots (n % m)).storage)
    (hpush : s.turn (u.pushed.length % m) = u.pushed.length →
      u.turn (u.pushed.length % m) = u.pushed.length)
    (hpop : s.turn (u.popped % m) = u.popped + 1 → u.turn (u.popped % m) = u.popped + 1) :
    ThreadOk m u pc := by
  obtain ⟨l, hl⟩ := hpushed
  have hlength : s.pushed.length ≤ u.pushed.length := by
    rw [hl, List.length_append]
    exact Nat.le_add_right _ _
  have hget : ∀ n, n < s.pushed.length → u.pushed[n]? = s.pushed[n]? := by
    intro n hn
    rw [hl, List.getElem?_append_left hn]
  cases pc with
  | idle => trivial
  | pushLoad value => trivial
  | pushCycle value idx seen => exact ⟨h.1, h.2.trans hlength⟩
  | pushExchange value idx seen =>
    obtain ⟨hidx, hseen, hmatch⟩ := h
    refine ⟨hidx, hseen.trans hlength, fun he => ?_⟩
    rw [he]
    exact hpush (he ▸ hmatch (Nat.le_antisymm hseen (he ▸ hlength)))
  | pushWrite value idx n =>
    have hn := (h.writes (show Pc.Writes n (.pushWrite value idx n) from rfl)).1
    obtain ⟨hidx, hvalue, hn'⟩ := h
    exact ⟨hidx, (hget n hn).trans hvalue, (hturn n (.inl rfl)).trans hn'⟩
  | pushStore idx n =>
    obtain ⟨hidx, hn, hn', hstored⟩ := h
    refine ⟨hidx, hn.trans_le hlength, (hturn n (.inl rfl)).trans hn', ?_⟩
    rw [hget n hn, hstorage n rfl, hstored]
  | popLoad => trivial
  | popCycle idx seen => exact ⟨h.1, h.2.trans hpopped⟩
  | popExchange idx seen =>
    obtain ⟨hidx, hseen, hmatch⟩ := h
    refine ⟨hidx, hseen.trans hpopped, fun he => ?_⟩
    rw [he]
    exact hpop (he ▸ hmatch (Nat.le_antisymm hseen (he ▸ hpopped)))
  | popRead idx n =>
    obtain ⟨hidx, hn, hn'⟩ := h
    exact ⟨hidx, hn.trans_le hpopped, (hturn n (.inr rfl)).trans hn'⟩
  | popStore value idx n =>
    obtain ⟨hidx, hn, hn', hvalue⟩ := h
    refine ⟨hidx, hn.trans_le hpopped, (hturn n (.inr rfl)).trans hn', ?_⟩
    rw [hget n (hn.trans_le hle), hvalue]

variable [DecidableEq Θ] {t : Θ} {pc : Pc α}

section Threads

variable (hpc : u.pc = Function.update s.pc t pc)

include hpc in
theorem thread_of_update (hself : ThreadOk m u pc) (hothers : ∀ t', t' ≠ t → ThreadOk m u (s.pc t')) :
    ∀ t', ThreadOk m u (u.pc t') := by
  intro t'
  rw [hpc]
  by_cases ht : t' = t
  · rw [ht, Function.update_self]
    exact hself
  · rw [Function.update_of_ne ht]
    exact hothers t' ht

include hpc in
theorem unique_of_update {Q : Nat → Pc α → Prop}
    (h : ∀ t t' n, Q n (s.pc t) → Q n (s.pc t') → t = t')
    (hnew : ∀ n, Q n pc → ∀ t', t' ≠ t → ¬ Q n (s.pc t')) :
    ∀ t t' n, Q n (u.pc t) → Q n (u.pc t') → t = t' := by
  intro a b n ha hb
  rw [hpc] at ha hb
  by_cases hat : a = t <;> by_cases hbt : b = t
  · rw [hat, hbt]
  · rw [hat, Function.update_self] at ha
    rw [Function.update_of_ne hbt] at hb
    exact absurd hb (hnew n ha b hbt)
  · rw [Function.update_of_ne hat] at ha
    rw [hbt, Function.update_self] at hb
    exact absurd ha (hnew n hb a hat)
  · rw [Function.update_of_ne hat] at ha
    rw [Function.update_of_ne hbt] at hb
    exact h a b n ha hb

end Threads

theorem Inv.goto (h : Inv m s) (hok : ThreadOk m s pc) (hwrites : ∀ n, pc.Writes n ↔ (s.pc t).Writes n)
    (hreads : ∀ n, pc.Reads n → (s.pc t).Reads n) : Inv m (s.goto t pc) := by
  have hpc : (s.goto t pc).pc = Function.update s.pc t pc := rfl
  refine ⟨h.capacity, h.producerIdx, h.consumerIdx, h.cycle, h.slot, h.free, h.full, h.popped_le, ?_,
    ?_, ?_, fun n hn hturn => ?_, h.released, h.nodup, h.returned⟩
  · refine thread_of_update hpc ?_ fun t' _ => ?_
    · exact hok.mono h.popped_le ⟨[], (List.append_nil _).symm⟩ (Nat.le_refl _) (fun _ _ => rfl)
        (fun _ _ => rfl) id id
    · exact (h.thread t').mono h.popped_le ⟨[], (List.append_nil _).symm⟩ (Nat.le_refl _)
        (fun _ _ => rfl) (fun _ _ => rfl) id id
  · refine unique_of_update hpc h.writes fun n hn t' ht hw => ht ?_
    exact h.writes t' t n hw ((hwrites n).mp hn)
  · refine unique_of_update hpc h.reads fun n hn t' ht hr => ht ?_
    exact h.reads t' t n hr (hreads n hn)
  · obtain ⟨t', hw⟩ := h.writer n hn hturn
    refine ⟨t', ?_⟩
    rw [hpc]
    by_cases ht : t' = t
    · rw [ht, Function.update_self]
      exact (hwrites n).mpr (ht ▸ hw)
    · rw [Function.update_of_ne ht]
      exact hw

/-! ### The steps that others see -/

/-- A thread that wins an index has seen the slot of this index free. -/
theorem Inv.winPush (h : Inv m s) (hm : 2 ≤ m) {value : α} {idx seen : Nat}
    (hpc : s.pc t = .pushExchange value idx seen) (hidx : s.ring.producerIdx = idx)
    (hrecent : s.pushed.length < seen + sizeMax) : Inv m (s.winPush t value idx) := by
  have hthread := h.thread t
  rw [hpc] at hthread
  obtain ⟨hword, hseen, hmatch⟩ := hthread
  have he : seen = s.pushed.length := by
    refine eq_of_word_eq ?_ (by rw [sizeMax]; omega) hrecent
    rw [← hword, ← hidx, h.producerIdx]
  have hturn : s.turn (s.pushed.length % m) = s.pushed.length := he ▸ hmatch he
  have hpc' : (s.winPush t value idx).pc =
      Function.update s.pc t (.pushWrite value idx s.pushed.length) := rfl
  have hnone : ∀ n, ¬ (s.pc t).Writes n ∧ ¬ (s.pc t).Reads n := by
    intro n
    rw [hpc]
    exact ⟨id, id⟩
  have hlength : (s.pushed ++ [value]).length = s.pushed.length + 1 := List.length_append
  have hget : ∀ n, n < s.pushed.length → (s.pushed ++ [value])[n]? = s.pushed[n]? := fun n hn =>
    List.getElem?_append_left hn
  have hself : ThreadOk m (s.winPush t value idx) (.pushWrite value idx s.pushed.length) := by
    refine ⟨?_, List.getElem?_concat_length, hturn⟩
    rw [← hidx, h.producerIdx]
  refine ⟨h.capacity, ?_, h.consumerIdx, h.cycle, h.slot, fun n hn => ?_, fun n hn => ?_, ?_, ?_, ?_, ?_,
    fun n hn hn' => ?_, h.released, h.nodup, fun n v hv => ?_⟩
  · show (idx + 1) % sizeMax = (s.pushed ++ [value]).length % sizeMax
    rw [← hidx, h.producerIdx, word_succ, hlength]
  · obtain ⟨hle, hlt, hround⟩ := h.free n hn
    refine ⟨hle, hlt, ?_⟩
    show (s.pushed ++ [value]).length ≤ n + m
    rw [hlength]
    refine Nat.lt_of_le_of_ne hround fun heq => ?_
    rw [heq, Nat.add_mod_right] at hturn
    have hsame := hturn.symm.trans hn
    omega
  · obtain ⟨hlt, hwindow, hround, hstored⟩ := h.full n hn
    refine ⟨hlt.trans_le (by rw [State.winPush, State.goto, hlength]; omega), hwindow, ?_,
      hstored.trans (hget n hlt).symm⟩
    show (s.pushed ++ [value]).length ≤ n + m
    rw [hlength]
    refine Nat.lt_of_le_of_ne hround fun heq => ?_
    rw [heq, Nat.add_mod_right] at hturn
    have hsame := hturn.symm.trans hn
    omega
  · show s.popped ≤ (s.pushed ++ [value]).length
    rw [hlength]
    exact h.popped_le.trans (Nat.le_succ _)
  · refine thread_of_update hpc' hself fun t' _ => ?_
    refine (h.thread t').mono h.popped_le ⟨[value], rfl⟩ (Nat.le_refl _) (fun _ _ => rfl)
      (fun _ _ => rfl) id id
  · refine unique_of_update hpc' h.writes fun n hn t' _ hw => ?_
    obtain rfl : s.pushed.length = n := hn
    exact Nat.lt_irrefl _ ((h.thread t').writes hw).1
  · exact unique_of_update hpc' h.reads fun n hn => hn.elim
  · rcases Nat.lt_or_eq_of_le (Nat.le_of_lt_succ (hlength ▸ hn)) with hlt | rfl
    · obtain ⟨t', hw⟩ := h.writer n hlt hn'
      refine ⟨t', ?_⟩
      have ht : t' ≠ t := fun ht => (hnone n).1 (ht ▸ hw)
      rw [hpc', Function.update_of_ne ht]
      exact hw
    · refine ⟨t, ?_⟩
      rw [hpc', Function.update_self]
      rfl
  · obtain ⟨hlt, hvalue⟩ := h.returned n v hv
    exact ⟨hlt, hvalue.trans (hget n (hlt.trans_le h.popped_le)).symm⟩

theorem Inv.winPop (h : Inv m s) {idx seen : Nat}
    (hpc : s.pc t = .popExchange idx seen) (hidx : s.ring.consumerIdx = idx)
    (hrecent : s.popped < seen + sizeMax) : Inv m (s.winPop t idx) := by
  have hthread := h.thread t
  rw [hpc] at hthread
  obtain ⟨hword, hseen, hmatch⟩ := hthread
  have he : seen = s.popped := by
    refine eq_of_word_eq ?_ (by rw [sizeMax]; omega) hrecent
    rw [← hword, ← hidx, h.consumerIdx]
  have hturn : s.turn (s.popped % m) = s.popped + 1 := he ▸ hmatch he
  have hpushed := (h.full s.popped hturn).1
  have hpc' : (s.winPop t idx).pc = Function.update s.pc t (.popRead idx s.popped) := rfl
  have hself : ThreadOk m (s.winPop t idx) (.popRead idx s.popped) := by
    refine ⟨?_, Nat.lt_succ_self _, hturn⟩
    rw [← hidx, h.consumerIdx]
  refine ⟨h.capacity, h.producerIdx, ?_, h.cycle, h.slot, fun n hn => ?_, fun n hn => ?_, hpushed, ?_, ?_,
    ?_, fun n hn hn' => ?_, h.released, h.nodup, fun n v hv => ?_⟩
  · show (idx + 1) % sizeMax = (s.popped + 1) % sizeMax
    rw [← hidx, h.consumerIdx, word_succ]
  · obtain ⟨hle, hlt, hround⟩ := h.free n hn
    refine ⟨Nat.lt_of_le_of_ne hle fun heq => ?_, Nat.lt_add_right 1 hlt |>.trans_le ?_, hround⟩
    · rw [heq] at hturn
      have hsame := hturn.symm.trans hn
      omega
    · show s.popped + m + 1 ≤ s.popped + 1 + m
      omega
  · obtain ⟨hlt, hwindow, hrest⟩ := h.full n hn
    refine ⟨hlt, ?_, hrest⟩
    show n < s.popped + 1 + m
    omega
  · refine thread_of_update hpc' hself fun t' _ => ?_
    exact (h.thread t').mono h.popped_le ⟨[], (List.append_nil _).symm⟩ (Nat.le_succ _)
      (fun _ _ => rfl) (fun _ _ => rfl) id id
  · exact unique_of_update hpc' h.writes fun n hn => hn.elim
  · refine unique_of_update hpc' h.reads fun n hn t' _ hr => ?_
    obtain rfl : s.popped = n := hn
    exact Nat.lt_irrefl _ ((h.thread t').reads hr).1
  · obtain ⟨t', hw⟩ := h.writer n hn hn'
    refine ⟨t', ?_⟩
    have ht : t' ≠ t := by
      rintro rfl
      rw [hpc] at hw
      exact hw
    rw [hpc', Function.update_of_ne ht]
    exact hw
  · exact (h.returned n v hv).imp_left fun hlt => hlt.trans (Nat.lt_succ_self _)

theorem Inv.write (h : Inv m s) (hm : 2 ≤ m) {value : α} {idx n : Nat}
    (hposition : s.ring.position idx = n % m) (hpc : s.pc t = .pushWrite value idx n) :
    Inv m ((s.write idx value).goto t (.pushStore idx n)) := by
  have hthread := h.thread t
  rw [hpc] at hthread
  obtain ⟨hidx, hvalue, hturn⟩ := hthread
  have hlt : n < s.pushed.length := (List.getElem?_eq_some_iff.mp hvalue).1
  have hw : (s.pc t).Writes n := hpc ▸ rfl
  have hpc' : ((s.write idx value).goto t (.pushStore idx n)).pc =
      Function.update s.pc t (.pushStore idx n) := rfl
  have hslots : ((s.write idx value).goto t (.pushStore idx n)).ring.slots =
      Function.update s.ring.slots (n % m) ⟨s.turn (n % m) % sizeMax, some value⟩ := by
    rw [← h.cycle n, ← hposition]
    rfl
  have hother : ∀ n', n' % m ≠ n % m → Function.update s.ring.slots (n % m)
      ⟨s.turn (n % m) % sizeMax, some value⟩ (n' % m) = s.ring.slots (n' % m) := fun n' hn =>
    Function.update_of_ne hn _ _
  refine ⟨h.capacity, h.producerIdx, h.consumerIdx, fun n' => ?_, h.slot, h.free, fun n' hn => ?_,
    h.popped_le, ?_, ?_, ?_, fun n' hn hn' => ?_, h.released, h.nodup, h.returned⟩
  · rw [hslots]
    by_cases hsame : n' % m = n % m
    · rw [hsame, Function.update_self]
      rfl
    · rw [hother n' hsame]
      exact h.cycle n'
  · obtain ⟨hlt', hwindow, hround, hstored⟩ := h.full n' hn
    refine ⟨hlt', hwindow, hround, ?_⟩
    have hsame : n' % m ≠ n % m := by
      intro hsame
      refine ne_succ_of_mod_eq hm hsame.symm (hturn.symm.trans ?_)
      rw [← hsame]
      exact hn
    rw [hslots, hother n' hsame]
    exact hstored
  · refine thread_of_update hpc' ⟨hidx, hlt, hturn, ?_⟩ fun t' ht => ?_
    · rw [hslots, Function.update_self]
      exact hvalue.symm
    · refine (h.thread t').mono h.popped_le ⟨[], (List.append_nil _).symm⟩ (Nat.le_refl _)
        (fun _ _ => rfl) (fun n' hn => ?_) id id
      have hsame : n' % m ≠ n % m := by
        intro hsame
        have hn' := ((h.thread t').writes hn).2
        rw [hsame, hturn] at hn'
        exact ht (h.writes t' t n (hn' ▸ hn) hw)
      rw [hslots, hother n' hsame]
  · refine unique_of_update hpc' h.writes fun n' hn t' ht hw' => ht ?_
    obtain rfl : n = n' := hn
    exact h.writes t' t n hw' hw
  · exact unique_of_update hpc' h.reads fun n hn => hn.elim
  · obtain ⟨t', hw'⟩ := h.writer n' hn hn'
    refine ⟨t', ?_⟩
    rw [hpc']
    by_cases ht : t' = t
    · rw [ht, hpc] at hw'
      rw [ht, Function.update_self]
      exact hw'
    · rw [Function.update_of_ne ht]
      exact hw'

omit [DecidableEq Θ] in
theorem Inv.store_slots (h : Inv m s) {idx n cycle turn : Nat} (hposition : s.ring.position idx = n % m)
    (hcycle : cycle % sizeMax = turn % sizeMax) :
    (s.store idx cycle turn).turn = Function.update s.turn (n % m) turn ∧
      (∀ n', ((s.store idx cycle turn).ring.slots (n' % m)).storage =
        (s.ring.slots (n' % m)).storage) ∧
      ∀ n', ((s.store idx cycle turn).ring.slots (n' % m)).cycle =
        (s.store idx cycle turn).turn (n' % m) % sizeMax := by
  have hturn : (s.store idx cycle turn).turn = Function.update s.turn (n % m) turn := by
    rw [← hposition]
    rfl
  have hslots : (s.store idx cycle turn).ring.slots = Function.update s.ring.slots (n % m)
      ⟨turn % sizeMax, (s.ring.slots (n % m)).storage⟩ := by
    rw [← hposition, ← hcycle]
    rfl
  refine ⟨hturn, fun n' => ?_, fun n' => ?_⟩
  · rw [hslots]
    by_cases hsame : n' % m = n % m
    · rw [hsame, Function.update_self]
    · rw [Function.update_of_ne hsame]
  · rw [hslots, hturn]
    by_cases hsame : n' % m = n % m
    · rw [hsame, Function.update_self, Function.update_self]
    · rw [Function.update_of_ne hsame, Function.update_of_ne hsame]
      exact h.cycle n'

theorem Inv.pushStore (h : Inv m s) (hm : 2 ≤ m) {idx n : Nat}
    (hposition : s.ring.position idx = n % m) (hpc : s.pc t = .pushStore idx n) :
    Inv m ((s.store idx (idx + 1) (n + 1)).goto t .idle) := by
  have hthread := h.thread t
  rw [hpc] at hthread
  obtain ⟨hidx, hlt, hturn, hstored⟩ := hthread
  have hw : (s.pc t).Writes n := hpc ▸ rfl
  obtain ⟨-, hwindow, hround⟩ := h.free n hturn
  obtain ⟨hturn', hstorage', hcycle'⟩ := h.store_slots hposition
    (show (idx + 1) % sizeMax = (n + 1) % sizeMax by rw [hidx, word_succ])
  have hpc' : ((s.store idx (idx + 1) (n + 1)).goto t .idle).pc = Function.update s.pc t .idle := rfl
  have hself : ∀ n', n' % m = n % m → (s.store idx (idx + 1) (n + 1)).turn (n' % m) = n + 1 := by
    intro n' hsame
    rw [hturn', hsame, Function.update_self]
  have hother : ∀ n', n' % m ≠ n % m →
      (s.store idx (idx + 1) (n + 1)).turn (n' % m) = s.turn (n' % m) := by
    intro n' hsame
    rw [hturn', Function.update_of_ne hsame]
  refine ⟨h.capacity, h.producerIdx, h.consumerIdx, hcycle', fun n' => ?_, fun n' hn => ?_,
    fun n' hn => ?_, h.popped_le, ?_, ?_, ?_, fun n' hn hn' => ?_, fun n' => ?_, h.nodup, h.returned⟩
  · by_cases hsame : n' % m = n % m
    · exact ⟨n, hsame.symm, .inr (hself n' hsame)⟩
    · obtain ⟨i, hi, hcases⟩ := h.slot n'
      refine ⟨i, hi, ?_⟩
      rw [show ((s.store idx (idx + 1) (n + 1)).goto t .idle).turn (n' % m) = s.turn (n' % m) from
        hother n' hsame]
      exact hcases
  · by_cases hsame : n' % m = n % m
    · exact absurd (hn.symm.trans (hself n' hsame)) (ne_succ_of_mod_eq hm hsame)
    · exact h.free n' ((hother n' hsame).symm.trans hn)
  · by_cases hsame : n' % m = n % m
    · obtain rfl : n = n' := Nat.succ.inj ((hself n' hsame).symm.trans hn)
      exact ⟨hlt, hwindow, hround, (hstorage' n).trans hstored⟩
    · obtain ⟨hlt', hwindow', hround', hstored'⟩ := h.full n' ((hother n' hsame).symm.trans hn)
      exact ⟨hlt', hwindow', hround', (hstorage' n').trans hstored'⟩
  · refine thread_of_update hpc' trivial fun t' ht => ?_
    refine (h.thread t').mono h.popped_le ⟨[], (List.append_nil _).symm⟩ (Nat.le_refl _)
      (fun n' hn => hother n' fun hsame => ?_) (fun n' _ => hstorage' n') (fun hpush => ?_) fun hpop => ?_
    · rcases hn with hn | hn
      · have hn' := ((h.thread t').writes hn).2
        rw [hsame, hturn] at hn'
        exact ht (h.writes t' t n (hn' ▸ hn) hw)
      · have hn' := ((h.thread t').reads hn).2
        rw [hsame, hturn] at hn'
        exact ne_succ_of_mod_eq hm hsame.symm hn'
    · refine (hother _ fun hsame => ?_).trans hpush
      rw [show ((s.store idx (idx + 1) (n + 1)).goto t .idle).pushed.length = s.pushed.length from rfl]
        at hpush hsame
      rw [hsame, hturn] at hpush
      omega
    · refine (hother _ fun hsame => ?_).trans hpop
      rw [show ((s.store idx (idx + 1) (n + 1)).goto t .idle).popped = s.popped from rfl] at hpop hsame
      rw [hsame, hturn] at hpop
      exact ne_succ_of_mod_eq hm hsame.symm hpop
  · exact unique_of_update hpc' h.writes fun n hn => hn.elim
  · exact unique_of_update hpc' h.reads fun n hn => hn.elim
  · by_cases hsame : n' % m = n % m
    · exact absurd (hn'.symm.trans (hself n' hsame)) (ne_succ_of_mod_eq hm hsame)
    · obtain ⟨t', hw'⟩ := h.writer n' hn ((hother n' hsame).symm.trans hn')
      refine ⟨t', ?_⟩
      have ht : t' ≠ t := by
        rintro rfl
        rw [hpc] at hw'
        exact hsame (congrArg (· % m) (show n = n' from hw').symm)
      rw [hpc', Function.update_of_ne ht]
      exact hw'
  · refine (h.released n').trans ?_
    by_cases hsame : n' % m = n % m
    · rw [show ((s.store idx (idx + 1) (n + 1)).goto t .idle).turn (n' % m) = n + 1 from hself n' hsame,
        hsame, hturn]
      have hne : n' + m ≠ n + 1 := ne_succ_of_mod_eq hm ((Nat.add_mod_right n' m).trans hsame)
      omega
    · rw [show ((s.store idx (idx + 1) (n + 1)).goto t .idle).turn (n' % m) = s.turn (n' % m) from
        hother n' hsame]

/-- `s` with a value that has been returned. -/
def State.finish (s : State Θ α) (t : Θ) (value : Option α) (idx n : Nat) : State Θ α :=
  { s.store idx (idx + s.ring.capacity) (n + s.ring.capacity) with
    returned := s.returned ++ [(n, value)] }.goto t .idle

theorem Inv.popStore (h : Inv m s) (hm : 2 ≤ m) {value : Option α} {idx n : Nat}
    (hposition : s.ring.position idx = n % m) (hpc : s.pc t = .popStore value idx n) :
    Inv m (s.finish t value idx n) := by
  have hthread := h.thread t
  rw [hpc] at hthread
  obtain ⟨hidx, hlt, hturn, hvalue⟩ := hthread
  have hr : (s.pc t).Reads n := hpc ▸ rfl
  obtain ⟨hpushed, -, hround, -⟩ := h.full n hturn
  obtain ⟨hturn', hstorage', hcycle'⟩ := h.store_slots hposition
    (show (idx + m) % sizeMax = (n + m) % sizeMax by rw [hidx, Nat.mod_add_mod])
  have hpc' : (s.finish t value idx n).pc = Function.update s.pc t .idle := rfl
  have hfields : (s.finish t value idx n).turn = Function.update s.turn (n % m) (n + m) ∧
      (s.finish t value idx n).ring.slots = (s.store idx (idx + m) (n + m)).ring.slots := by
    rw [State.finish, h.capacity]
    exact ⟨hturn', rfl⟩
  have hself : ∀ n', n' % m = n % m → (s.finish t value idx n).turn (n' % m) = n + m := by
    intro n' hsame
    rw [hfields.1, hsame, Function.update_self]
  have hother : ∀ n', n' % m ≠ n % m → (s.finish t value idx n).turn (n' % m) = s.turn (n' % m) := by
    intro n' hsame
    rw [hfields.1, Function.update_of_ne hsame]
  have hstorage : ∀ n', ((s.finish t value idx n).ring.slots (n' % m)).storage =
      (s.ring.slots (n' % m)).storage := by
    rw [hfields.2]
    exact hstorage'
  refine ⟨h.capacity, h.producerIdx, h.consumerIdx, fun n' => ?_, fun n' => ?_, fun n' hn => ?_,
    fun n' hn => ?_, h.popped_le, ?_, ?_, ?_, fun n' hn hn' => ?_, fun n' => ?_, ?_, fun n' v hv => ?_⟩
  · rw [hfields.2, hfields.1, hcycle', hturn']
  · by_cases hsame : n' % m = n % m
    · exact ⟨n + m, (Nat.add_mod_right n m).trans hsame.symm, .inl (hself n' hsame)⟩
    · rw [hother n' hsame]
      exact h.slot n'
  · by_cases hsame : n' % m = n % m
    · obtain rfl : n + m = n' := (hself n' hsame).symm.trans hn
      refine ⟨h.popped_le.trans hround, Nat.add_lt_add_right hlt m, ?_⟩
      exact hround.trans (Nat.le_add_right _ _)
    · exact h.free n' ((hother n' hsame).symm.trans hn)
  · by_cases hsame : n' % m = n % m
    · have heq := (hself n' hsame).symm.trans hn
      exact absurd heq (ne_succ_of_mod_eq hm ((Nat.add_mod_right n m).trans hsame.symm))
    · obtain ⟨hlt', hwindow', hround', hstored'⟩ := h.full n' ((hother n' hsame).symm.trans hn)
      exact ⟨hlt', hwindow', hround', (hstorage n').trans hstored'⟩
  · refine thread_of_update hpc' trivial fun t' ht => ?_
    refine (h.thread t').mono h.popped_le ⟨[], (List.append_nil _).symm⟩ (Nat.le_refl _)
      (fun n' hn => hother n' fun hsame => ?_) (fun n' _ => hstorage n') (fun hpush => ?_) fun hpop => ?_
    · rcases hn with hn | hn
      · have hn' := ((h.thread t').writes hn).2
        rw [hsame, hturn] at hn'
        exact ne_succ_of_mod_eq hm hsame hn'.symm
      · have hn' := ((h.thread t').reads hn).2
        rw [hsame, hturn] at hn'
        exact ht (h.reads t' t n (Nat.succ.inj hn' ▸ hn) hr)
    · refine (hother _ fun hsame => ?_).trans hpush
      rw [show (s.finish t value idx n).pushed.length = s.pushed.length from rfl] at hpush hsame
      rw [hsame, hturn] at hpush
      exact ne_succ_of_mod_eq hm hsame hpush.symm
    · refine (hother _ fun hsame => ?_).trans hpop
      rw [show (s.finish t value idx n).popped = s.popped from rfl] at hpop hsame
      rw [hsame, hturn] at hpop
      omega
  · exact unique_of_update hpc' h.writes fun n hn => hn.elim
  · exact unique_of_update hpc' h.reads fun n hn => hn.elim
  · by_cases hsame : n' % m = n % m
    · obtain rfl : n + m = n' := (hself n' hsame).symm.trans hn'
      exact absurd hn (Nat.not_lt.mpr hround)
    · obtain ⟨t', hw⟩ := h.writer n' hn ((hother n' hsame).symm.trans hn')
      refine ⟨t', ?_⟩
      have ht : t' ≠ t := by
        rintro rfl
        rw [hpc] at hw
        exact hw
      rw [hpc', Function.update_of_ne ht]
      exact hw
  · rw [show (s.finish t value idx n).returned = s.returned ++ [(n, value)] from rfl, List.map_append,
      List.mem_append, h.released n', List.map_singleton, List.mem_singleton]
    by_cases hsame : n' % m = n % m
    · rw [hself n' hsame, hsame, hturn]
      rcases Nat.lt_trichotomy n' n with hbelow | rfl | habove
      · have hle := add_le_of_mod_eq hsame hbelow
        omega
      · omega
      · omega
    · rw [hother n' hsame]
      have hne : n' ≠ n := fun he => hsame (congrArg (· % m) he)
      exact or_iff_left hne
  · rw [show (s.finish t value idx n).returned = s.returned ++ [(n, value)] from rfl, List.map_append]
    have hnew : n ∉ s.returned.map Prod.fst := by
      rw [h.released n, hturn]
      omega
    exact List.nodup_append_comm.mp (List.nodup_cons.mpr ⟨hnew, h.nodup⟩)
  · rcases List.mem_append.mp hv with hv | hv
    · exact h.returned n' v hv
    · obtain ⟨rfl, rfl⟩ := Prod.mk.inj (List.mem_singleton.mp hv)
      exact ⟨hlt, hvalue⟩

/-! ### Runs -/

/-- Fewer than `2 ^ 64` calls have won an index since a thread that compares loaded its own. -/
def Recent (s : State Θ α) : Pc α → Prop
  | .pushExchange _ _ seen => s.pushed.length < seen + sizeMax
  | .popExchange _ seen => s.popped < seen + sizeMax
  | _ => True

def StepOk (s : State Θ α) : Action Θ α → Prop
  | .go t _ => Recent s (s.pc t)
  | _ => True

instance (s : State Θ α) (pc : Pc α) : Decidable (Recent s pc) :=
  match pc with
  | .pushExchange _ _ seen => inferInstanceAs (Decidable (s.pushed.length < seen + sizeMax))
  | .popExchange _ seen => inferInstanceAs (Decidable (s.popped < seen + sizeMax))
  | .idle | .pushLoad _ | .pushCycle _ _ _ | .pushWrite _ _ _ | .pushStore _ _ | .popLoad
  | .popCycle _ _ | .popRead _ _ | .popStore _ _ _ => inferInstanceAs (Decidable True)

instance (s : State Θ α) (a : Action Θ α) : Decidable (StepOk s a) :=
  match a with
  | .go t _ => inferInstanceAs (Decidable (Recent s (s.pc t)))
  | .tryPush _ _ | .tryPop _ => inferInstanceAs (Decidable True)

omit [DecidableEq Θ] in
theorem Inv.push_match (h : Inv m s) (hm : m ≤ 9223372036854775808) {idx : Nat}
    (hidx : idx = s.pushed.length % sizeMax) (hposition : s.ring.position idx = s.pushed.length % m)
    (hdiff : difference (s.cycle idx) idx = 0) : s.turn (s.pushed.length % m) = s.pushed.length := by
  have hword := word_eq_of_difference hdiff
  rw [State.cycle, hposition, h.cycle, hidx, Nat.mod_mod, Nat.mod_mod] at hword
  have hpopped := h.popped_le
  obtain ⟨i, -, hfree | hfull⟩ := h.slot_cases s.pushed.length
  · refine eq_of_word_eq hword ?_ ?_ <;> rw [sizeMax] <;> omega
  · refine eq_of_word_eq hword ?_ ?_ <;> rw [sizeMax] <;> omega

omit [DecidableEq Θ] in
theorem Inv.pop_match (h : Inv m s) (hm : m ≤ 9223372036854775808) {idx : Nat}
    (hidx : idx = s.popped % sizeMax) (hposition : s.ring.position idx = s.popped % m)
    (hdiff : difference (s.cycle idx) ((idx + 1) % sizeMax) = 0) :
    s.turn (s.popped % m) = s.popped + 1 := by
  have hword := word_eq_of_difference hdiff
  rw [State.cycle, hposition, h.cycle, hidx, word_succ, Nat.mod_mod, Nat.mod_mod] at hword
  have hpopped := h.popped_le
  obtain ⟨i, -, hfree | hfull⟩ := h.slot_cases s.popped
  · refine eq_of_word_eq hword ?_ ?_ <;> rw [sizeMax] <;> omega
  · refine eq_of_word_eq hword ?_ ?_ <;> rw [sizeMax] <;> omega

/-- A place of a thread that has won nothing. -/
def Pc.Outside (pc : Pc α) : Prop := ∀ n, ¬ pc.Writes n ∧ ¬ pc.Reads n

theorem Inv.goto_outside (h : Inv m s) (hok : ThreadOk m s pc) (hpc : (s.pc t).Outside)
    (hnew : pc.Outside) : Inv m (s.goto t pc) :=
  h.goto hok (fun n => iff_of_false (hnew n).1 (hpc n).1) fun n hn => absurd hn (hnew n).2

theorem branch_cases {Q : Pc α → Prop} {diff : Int} {equal less greater : Pc α}
    (hequal : diff = 0 → Q equal) (hless : Q less) (hgreater : Q greater) :
    Q (State.branch diff equal less greater) := by
  rw [State.branch]
  split_ifs with hzero hneg
  · exact hequal hzero
  · exact hless
  · exact hgreater

variable {k : Nat}

theorem Inv.go (hk1 : 1 ≤ k) (hk : k ≤ 63) (h : Inv (2 ^ k) s) (hrecent : Recent s (s.pc t))
    {spurious : Bool} (hs : s.go t spurious = some u) : Inv (2 ^ k) u := by
  have hm : 2 ^ 1 ≤ 2 ^ k := Nat.pow_le_pow_right (by decide) hk1
  have hle : 2 ^ k ≤ 9223372036854775808 := BufferedChannel.Ring.Holds.two_pow_le hk
  have hposition : ∀ n, s.ring.position (n % sizeMax) = n % 2 ^ k := fun n =>
    BufferedChannel.Ring.position_mod h.capacity hk n
  have hnone : ∀ n : Nat, ¬ False ∧ ¬ False := fun _ => ⟨id, id⟩
  have hthread := h.thread t
  rw [State.go] at hs
  split at hs
  case h_1 => exact absurd hs (by simp)
  case h_2 value hpc =>
    rw [← Option.some.inj hs]
    exact h.goto_outside ⟨h.producerIdx, Nat.le_refl _⟩ (hpc ▸ hnone) hnone
  case h_3 value idx seen hpc =>
    rw [hpc] at hthread
    obtain ⟨hidx, hseen⟩ := hthread
    rw [← Option.some.inj hs]
    refine h.goto_outside (branch_cases (fun hdiff => ⟨hidx, hseen, fun he => ?_⟩) trivial trivial)
      (hpc ▸ hnone) (branch_cases (fun _ => hnone) hnone hnone)
    rw [he] at hidx ⊢
    exact h.push_match hle hidx (hidx ▸ hposition _) hdiff
  case h_4 value idx seen hpc =>
    rw [hpc] at hrecent
    split_ifs at hs with hwin
    · rw [← Option.some.inj hs]
      exact h.winPush hm hpc hwin.2 hrecent
    · rw [← Option.some.inj hs]
      exact h.goto_outside ⟨h.producerIdx, Nat.le_refl _⟩ (hpc ▸ hnone) hnone
  case h_5 value idx n hpc =>
    rw [hpc] at hthread
    rw [← Option.some.inj hs]
    exact h.write hm (hthread.1 ▸ hposition n) hpc
  case h_6 idx n hpc =>
    rw [hpc] at hthread
    rw [← Option.some.inj hs]
    exact h.pushStore hm (hthread.1 ▸ hposition n) hpc
  case h_7 hpc =>
    rw [← Option.some.inj hs]
    exact h.goto_outside ⟨h.consumerIdx, Nat.le_refl _⟩ (hpc ▸ hnone) hnone
  case h_8 idx seen hpc =>
    rw [hpc] at hthread
    obtain ⟨hidx, hseen⟩ := hthread
    rw [← Option.some.inj hs]
    refine h.goto_outside (branch_cases (fun hdiff => ⟨hidx, hseen, fun he => ?_⟩) trivial trivial)
      (hpc ▸ hnone) (branch_cases (fun _ => hnone) hnone hnone)
    rw [he] at hidx ⊢
    exact h.pop_match hle hidx (hidx ▸ hposition _) hdiff
  case h_9 idx seen hpc =>
    rw [hpc] at hrecent
    split_ifs at hs with hwin
    · rw [← Option.some.inj hs]
      exact h.winPop hpc hwin.2 hrecent
    · rw [← Option.some.inj hs]
      exact h.goto_outside ⟨h.consumerIdx, Nat.le_refl _⟩ (hpc ▸ hnone) hnone
  case h_10 idx n hpc =>
    rw [hpc] at hthread
    obtain ⟨hidx, hlt, hturn⟩ := hthread
    rw [← Option.some.inj hs]
    refine h.goto ⟨hidx, hlt, hturn, ?_⟩ (fun n' => ?_) fun n' hn => ?_
    · rw [State.storage, hidx, hposition]
      exact (h.full n hturn).2.2.2
    · rw [hpc]
      exact Iff.rfl
    · rw [hpc]
      exact hn
  case h_11 value idx n hpc =>
    rw [hpc] at hthread
    rw [← Option.some.inj hs]
    exact h.popStore hm (hthread.1 ▸ hposition n) hpc

theorem Inv.step (hk1 : 1 ≤ k) (hk : k ≤ 63) {a : Action Θ α} (h : Inv (2 ^ k) s) (hok : StepOk s a)
    (hs : step s a = some u) : Inv (2 ^ k) u := by
  have hnone : ∀ n : Nat, ¬ False ∧ ¬ False := fun _ => ⟨id, id⟩
  cases a with
  | tryPush t value =>
    rw [ChannelCore.step] at hs
    split at hs
    case h_1 hpc =>
      rw [← Option.some.inj hs]
      exact h.goto_outside trivial (hpc ▸ hnone) hnone
    case h_2 => exact absurd hs (by simp)
  | tryPop t =>
    rw [ChannelCore.step] at hs
    split at hs
    case h_1 hpc =>
      rw [← Option.some.inj hs]
      exact h.goto_outside trivial (hpc ▸ hnone) hnone
    case h_2 => exact absurd hs (by simp)
  | go t spurious => exact h.go hk1 hk hok hs

theorem Inv.start (hk : k ≤ 63) : Inv (2 ^ k) (machine Θ α k).start := by
  have hpos : 0 < 2 ^ k := Nat.pow_pos (by decide)
  have hle : 2 ^ k ≤ 9223372036854775808 := BufferedChannel.Ring.Holds.two_pow_le hk
  have hlt : ∀ n, n % 2 ^ k < 2 ^ k := fun n => Nat.mod_lt n hpos
  refine ⟨rfl, rfl, rfl, fun n => ?_, fun n => ⟨n % 2 ^ k, Nat.mod_mod _ _, .inl rfl⟩, fun n hn => ?_,
    fun n hn => ?_, Nat.le_refl _, fun _ => trivial, fun _ _ _ hw => hw.elim, fun _ _ _ hr => hr.elim,
    fun n hn => absurd hn (Nat.not_lt_zero n), fun n => ?_, List.nodup_nil,
    fun n v hv => absurd hv List.not_mem_nil⟩
  · show n % 2 ^ k = n % 2 ^ k % sizeMax
    rw [Nat.mod_eq_of_lt (Nat.lt_of_lt_of_le (hlt n) (hle.trans (by decide)))]
  · have hn' : n % 2 ^ k = n := hn
    refine ⟨Nat.zero_le _, ?_, Nat.zero_le _⟩
    show n < 0 + 2 ^ k
    rw [Nat.zero_add, ← hn']
    exact hlt n
  · have hn' : n % 2 ^ k = n + 1 := hn
    have hmod := Nat.mod_le n (2 ^ k)
    omega
  · show n ∈ [] ↔ n + 2 ^ k ≤ n % 2 ^ k
    refine iff_of_false List.not_mem_nil (Nat.not_le.mpr ?_)
    exact (hlt n).trans_le (Nat.le_add_left _ _)

theorem inv_of_reachable (hk1 : 1 ≤ k) (hk : k ≤ 63) (h : (machine Θ α k).ReachableWith StepOk s) :
    Inv (2 ^ k) s :=
  h.invariant (Inv.start hk) fun _ _ _ hinv hok hs => hinv.step hk1 hk hok hs

end Dumbo.Fiber.ChannelCore
