import Dumbo.Fiber.ContextSpmcQueue
import Dumbo.Lib.Mask
import Mathlib.Data.List.Infix

/-!
# The arrays of a work-stealing queue

The slot of an index holds its context in the array that was current when a thread loaded it, as long as
`top_` has not gone beyond the index: the owner reuses slots of popped indices only, and copies the others.
This holds of the runs of fewer than `2 ^ 64` pushes.
-/

namespace Dumbo.Fiber.ContextSpmcQueue

open Transition

variable {Θ C : Type*}

/-! ### Arrays -/

namespace Array

variable {a b : Array C} {i j bottom top : Nat} {ctx : Option C}

theorem push_pop_self (a : Array C) (bottom : Nat) (ctx : Option C) : (a.push bottom ctx).pop bottom = ctx :=
  Function.update_self _ _ _

theorem push_pop_of_ne (h : i % a.size ≠ bottom % a.size) : (a.push bottom ctx).pop i = a.pop i :=
  Function.update_of_ne h _ _

theorem mod_ne_of_lt {m : Nat} (hij : i < j) (hji : j < i + m) : i % m ≠ j % m := fun he =>
  absurd (add_le_of_mod_eq he hij) (Nat.not_le.mpr hji)

theorem distance_eq (h : top ≤ bottom) (hlt : bottom < 2 ^ 64) : distance bottom top = bottom - top := by
  rw [distance]
  omega

theorem copy_succ (a b : Array C) {n : Nat} (hn : top + (n + 1) ≤ 2 ^ 64) :
    a.copy b top (n + 1) = (a.copy b top n).push (top + n) (a.pop (top + n)) := by
  rw [copy, List.range_succ, List.foldl_append, List.foldl_cons, List.foldl_nil,
    Nat.mod_eq_of_lt (show top + n < 2 ^ 64 by omega)]
  rfl

theorem copy_size (a b : Array C) {n : Nat} (hn : top + n ≤ 2 ^ 64) : (a.copy b top n).size = b.size := by
  induction n with
  | zero => rfl
  | succ n ih =>
    rw [copy_succ a b hn]
    exact ih (by omega)

/-- What the loop has copied. -/
theorem copy_pop (a b : Array C) {n : Nat} (hn : top + n ≤ 2 ^ 64) (hsize : n ≤ b.size) (hi : top ≤ i)
    (hlt : i < top + n) : (a.copy b top n).pop i = a.pop i := by
  induction n with
  | zero => exact absurd hlt (by omega)
  | succ n ih =>
    rw [copy_succ a b hn]
    rcases Nat.lt_or_eq_of_le (Nat.le_of_lt_succ hlt) with hlow | rfl
    · rw [push_pop_of_ne (by rw [copy_size a b (by omega)]; exact mod_ne_of_lt hlow (by omega))]
      exact ih (by omega) (by omega) hlow
    · exact push_pop_self _ _ _

theorem copy_pop_of_ne (a b : Array C) {n : Nat} (hn : top + n ≤ 2 ^ 64)
    (hi : ∀ j, top ≤ j → j < top + n → i % b.size ≠ j % b.size) : (a.copy b top n).pop i = b.pop i := by
  induction n with
  | zero => rfl
  | succ n ih =>
    rw [copy_succ a b hn, push_pop_of_ne]
    · exact ih (by omega) fun j hj hlt => hi j hj (by omega)
    · rw [copy_size a b (by omega)]
      exact hi (top + n) (by omega) (by omega)

theorem resize_pop (h : top ≤ bottom) (hlt : bottom < 2 ^ 64) (hsize : bottom ≤ top + 2 * a.size) :
    (a.resize bottom top).size = 2 * a.size ∧
      ∀ i, top ≤ i → i < bottom → (a.resize bottom top).pop i = a.pop i := by
  rw [resize, distance_eq h hlt]
  refine ⟨copy_size _ _ (by omega), fun i hi hib => copy_pop _ _ (by omega) ?_ hi (by omega)⟩
  show bottom - top ≤ 2 * a.size
  omega

/-- The slots that hold contexts are those of the indices that have been stored. -/
def Filled (a : Array C) : Prop := ∀ i, (a.pop i).isSome = true ↔ a.Stored i

theorem filled_create (size first : Nat) : Filled { (create size : Array C) with first, last := first } := by
  intro i
  constructor
  · intro h
    exact absurd h (by simp [pop, create])
  · rintro ⟨j, hfirst, hlast, -⟩
    exact absurd hlast (Nat.not_lt.mpr hfirst)

theorem Filled.push (h : Filled a) (hle : a.first ≤ a.last) (ctx : C) :
    Filled (a.push a.last (some ctx)) := by
  intro i
  by_cases hi : i % a.size = a.last % a.size
  · have hpop : (a.push a.last (some ctx)).pop i = some ctx := by
      rw [pop, show (a.push a.last (some ctx)).size = a.size from rfl, hi]
      exact push_pop_self _ _ _
    rw [hpop]
    exact ⟨fun _ => ⟨a.last, hle, Nat.lt_succ_self _, hi.symm⟩, fun _ => rfl⟩
  · rw [push_pop_of_ne hi, h i]
    constructor
    · rintro ⟨j, hfirst, hlast, hj⟩
      exact ⟨j, hfirst, Nat.lt_succ_of_lt hlast, hj⟩
    · rintro ⟨j, hfirst, hlast, hj⟩
      refine ⟨j, hfirst, Nat.lt_of_le_of_ne (Nat.le_of_lt_succ hlast) ?_, hj⟩
      rintro rfl
      exact hi hj.symm

theorem filled_copy (a b : Array C) {n : Nat} (hn : top + n ≤ 2 ^ 64) (hb : Filled b) (hfirst : b.first ≤ top)
    (hlast : b.last = top) (ha : ∀ i, top ≤ i → i < top + n → (a.pop i).isSome = true) :
    Filled (a.copy b top n) ∧ (a.copy b top n).first = b.first ∧ (a.copy b top n).last = top + n := by
  induction n with
  | zero => exact ⟨hb, rfl, hlast⟩
  | succ n ih =>
    obtain ⟨hfilled, hsame, hnext⟩ := ih (by omega) fun i hi hlt => ha i hi (by omega)
    obtain ⟨ctx, hctx⟩ := Option.isSome_iff_exists.mp (ha (top + n) (by omega) (by omega))
    have hpush := hfilled.push (by omega) ctx
    rw [hnext] at hpush
    rw [copy_succ a b hn, hctx]
    exact ⟨hpush, hsame, rfl⟩

theorem filled_resize (h : top ≤ bottom) (hlt : bottom < 2 ^ 64)
    (ha : ∀ i, top ≤ i → i < bottom → (a.pop i).isSome = true) :
    Filled (a.resize bottom top) ∧ (a.resize bottom top).first = top ∧
      (a.resize bottom top).last = bottom := by
  have hend : top + (bottom - top) ≤ 2 ^ 64 := by omega
  obtain ⟨hfilled, hfirst, hlast⟩ := filled_copy a { (create (2 * a.size) : Array C) with
    first := top, last := top } hend (filled_create _ _) (Nat.le_refl _) rfl fun i hi hib => ha i hi (by omega)
  rw [resize, distance_eq h hlt]
  refine ⟨hfilled, hfirst, hlast.trans ?_⟩
  omega

end Array

/-! ### Threads -/

/-- What a `pop` knows between its reads and its compare-exchange. -/
structure Reads (s : State Θ C) (top popped pushed : Nat) : Prop where
  top : top = popped
  popped_le : popped ≤ s.popped.length
  lt : popped < pushed
  pushed_le : pushed ≤ s.pushed.length

def ThreadOk (owner : Θ) (s : State Θ C) (t : Θ) : Pc C → Prop
  | .idle | .popTop => True
  | .pushBottom _ => t = owner
  | .pushTop _ bottom => t = owner ∧ bottom = s.pushed.length
  | .pushArray _ bottom top => t = owner ∧ bottom = s.pushed.length ∧ top ≤ s.popped.length ∧
      bottom ≤ top + (s.arrays s.array).size ∧ (s.arrays s.array).first ≤ top
  | .pushGrow _ bottom top array => t = owner ∧ bottom = s.pushed.length ∧ top ≤ s.popped.length ∧
      bottom ≤ top + (s.arrays s.array).size ∧ (s.arrays s.array).first ≤ top ∧ array = s.array
  | .pushSlot _ bottom array => t = owner ∧ bottom = s.pushed.length ∧
      bottom < s.popped.length + (s.arrays s.array).size ∧ array = s.array
  | .pushStore ctx bottom => t = owner ∧ bottom = s.pushed.length ∧
      bottom < s.popped.length + (s.arrays s.array).size ∧ (s.arrays s.array).last = bottom + 1 ∧
      (s.arrays s.array).pop bottom = some ctx
  | .popBottom top popped => top = popped ∧ popped ≤ s.popped.length
  | .popArray top popped pushed => Reads s top popped pushed
  | .popSlot top array popped pushed => Reads s top popped pushed ∧ array ≤ s.array ∧
      (s.popped.length = popped → (s.arrays array).pop top = s.pushed[popped]?)
  | .popExchange top ctx popped pushed => Reads s top popped pushed ∧
      (s.popped.length = popped → s.pushed[popped]? = some ctx)

structure Inv (owner : Θ) (s : State Θ C) : Prop where
  top : s.top = s.popped.length
  bottom : s.bottom = s.pushed.length
  lt : s.pushed.length < 2 ^ 64
  popped : s.popped <+: s.pushed
  size : 0 < (s.arrays s.array).size
  room : s.pushed.length ≤ s.popped.length + (s.arrays s.array).size
  current : ∀ i, s.popped.length ≤ i → i < s.pushed.length →
    (s.arrays s.array).pop i = s.pushed[i]?
  filled : ∀ n ≤ s.array, (s.arrays n).Filled
  first : (s.arrays s.array).first ≤ s.popped.length
  /-- the owner stores a context, and then says so -/
  last : (∀ ctx bottom, s.pc owner ≠ .pushStore ctx bottom) → (s.arrays s.array).last = s.pushed.length
  thread : ∀ t, ThreadOk owner s t (s.pc t)
  nulls : ∀ r ∈ s.nulls, r.bottom ≤ r.top ∨ r.top < r.popped
  fault : s.fault = true → ∃ t top array popped pushed,
    s.pc t = .popSlot top array popped pushed ∧ popped < s.popped.length

variable {owner t : Θ} {s u : State Θ C} {pc : Pc C}

theorem Reads.mono {top popped pushed : Nat} (h : Reads s top popped pushed)
    (hpushed : s.pushed.length ≤ u.pushed.length) (hpopped : s.popped.length ≤ u.popped.length) :
    Reads u top popped pushed :=
  ⟨h.top, h.popped_le.trans hpopped, h.lt, h.pushed_le.trans hpushed⟩

/-- What a thread relies on, where others move. Nothing but the owner's own steps changes the arrays. -/
theorem ThreadOk.mono (h : ThreadOk owner s t pc) (hpushed : ∃ l, u.pushed = s.pushed ++ l)
    (hpopped : s.popped.length ≤ u.popped.length) (harray : s.array ≤ u.array)
    (hslots : ∀ n ≤ s.array, u.popped.length < s.pushed.length →
      (u.arrays n).pop u.popped.length = (s.arrays n).pop u.popped.length)
    (howner : t = owner → u.pushed = s.pushed ∧ u.array = s.array ∧ u.arrays = s.arrays) :
    ThreadOk owner u t pc := by
  obtain ⟨l, hl⟩ := hpushed
  have hlength : s.pushed.length ≤ u.pushed.length := by
    rw [hl, List.length_append]
    exact Nat.le_add_right _ _
  have hget : ∀ n, n < s.pushed.length → u.pushed[n]? = s.pushed[n]? := by
    intro n hn
    rw [hl, List.getElem?_append_left hn]
  cases pc with
  | idle => trivial
  | popTop => trivial
  | pushBottom ctx => exact h
  | pushTop ctx bottom =>
    obtain ⟨ht, hbottom⟩ := h
    exact ⟨ht, hbottom.trans (congrArg List.length (howner ht).1.symm)⟩
  | pushArray ctx bottom top =>
    obtain ⟨ht, hbottom, htop, hroom, hfirst⟩ := h
    obtain ⟨hsame, hcurrent, hsizes⟩ := howner ht
    rw [ThreadOk, hsame, hcurrent, hsizes]
    exact ⟨ht, hbottom, htop.trans hpopped, hroom, hfirst⟩
  | pushGrow ctx bottom top array =>
    obtain ⟨ht, hbottom, htop, hroom, hfirst, he⟩ := h
    obtain ⟨hsame, hcurrent, hsizes⟩ := howner ht
    rw [ThreadOk, hsame, hcurrent, hsizes]
    exact ⟨ht, hbottom, htop.trans hpopped, hroom, hfirst, he⟩
  | pushSlot ctx bottom array =>
    obtain ⟨ht, hbottom, hroom, he⟩ := h
    obtain ⟨hsame, hcurrent, hsizes⟩ := howner ht
    rw [ThreadOk, hsame, hcurrent, hsizes]
    exact ⟨ht, hbottom, hroom.trans_le (Nat.add_le_add_right hpopped _), he⟩
  | pushStore ctx bottom =>
    obtain ⟨ht, hbottom, hroom, hstored⟩ := h
    obtain ⟨hsame, hcurrent, hsizes⟩ := howner ht
    rw [ThreadOk, hsame, hcurrent, hsizes]
    exact ⟨ht, hbottom, hroom.trans_le (Nat.add_le_add_right hpopped _), hstored⟩
  | popBottom top popped => exact ⟨h.1, h.2.trans hpopped⟩
  | popArray top popped pushed => exact Reads.mono h hlength hpopped
  | popSlot top array popped pushed =>
    obtain ⟨hreads, hle, hslot⟩ := h
    refine ⟨hreads.mono hlength hpopped, hle.trans harray, fun he => ?_⟩
    have hlt : popped < s.pushed.length := hreads.lt.trans_le hreads.pushed_le
    have hslot' := hslot (Nat.le_antisymm (hpopped.trans_eq he) hreads.popped_le)
    rw [hget popped hlt, ← hslot', hreads.top, ← he]
    exact hslots array hle (he ▸ hlt)
  | popExchange top ctx popped pushed =>
    obtain ⟨hreads, hvalue⟩ := h
    refine ⟨hreads.mono hlength hpopped, fun he => ?_⟩
    rw [hget popped (hreads.lt.trans_le hreads.pushed_le)]
    exact hvalue (Nat.le_antisymm (hpopped.trans_eq he) hreads.popped_le)

variable [DecidableEq Θ]

theorem goto_pc (s : State Θ C) (t : Θ) (pc : Pc C) : (s.goto t pc).pc t = pc := Function.update_self _ _ _

theorem thread_of_update (hpc : u.pc = Function.update s.pc t pc) (hself : ThreadOk owner u t pc)
    (hothers : ∀ t', t' ≠ t → ThreadOk owner u t' (s.pc t')) : ∀ t', ThreadOk owner u t' (u.pc t') := by
  intro t'
  rw [hpc]
  by_cases ht : t' = t
  · rw [ht, Function.update_self]
    exact hself
  · rw [Function.update_of_ne ht]
    exact hothers t' ht

theorem Inv.last_of_goto (h : Inv owner s) (hu : u.pc = Function.update s.pc t pc)
    (hcurrent : u.arrays u.array = s.arrays s.array) (hpushed : u.pushed = s.pushed)
    (hpc : ∀ ctx bottom, s.pc t ≠ .pushStore ctx bottom) :
    (∀ ctx bottom, u.pc owner ≠ .pushStore ctx bottom) → (u.arrays u.array).last = u.pushed.length := by
  intro hnot
  rw [hcurrent, hpushed]
  apply h.last
  by_cases ht : owner = t
  · rw [ht]
    exact hpc
  · rw [hu, Function.update_of_ne ht] at hnot
    exact hnot

theorem Inv.goto (h : Inv owner s) (hrun : s.fault = false)
    (hpc : ∀ ctx bottom, s.pc t ≠ .pushStore ctx bottom) (hok : ThreadOk owner s t pc) :
    Inv owner (s.goto t pc) := by
  refine ⟨h.top, h.bottom, h.lt, h.popped, h.size, h.room, h.current, h.filled, h.first, ?_, ?_, h.nulls,
    fun hf => absurd (hrun.symm.trans hf) (by simp)⟩
  · exact h.last_of_goto rfl rfl rfl hpc
  · refine thread_of_update rfl ?_ fun t' _ => ?_
    · exact hok.mono ⟨[], (List.append_nil _).symm⟩ (Nat.le_refl _) (Nat.le_refl _) (fun _ _ _ => rfl)
        fun _ => ⟨rfl, rfl, rfl⟩
    · exact (h.thread t').mono ⟨[], (List.append_nil _).symm⟩ (Nat.le_refl _) (Nat.le_refl _)
        (fun _ _ _ => rfl) fun _ => ⟨rfl, rfl, rfl⟩

/-! ### The steps that others see -/

theorem Inv.grow (h : Inv owner s) (hrun : s.fault = false) {ctx : C} {bottom top array : Nat}
    (hpc : s.pc t = .pushGrow ctx bottom top array) :
    Inv owner ((s.grow bottom top array).goto t (.pushSlot ctx bottom (s.array + 1))) := by
  have hthread := h.thread t
  rw [hpc] at hthread
  obtain ⟨ht, hbottom, htop, hroom, hfirst, rfl⟩ := hthread
  have hle := htop.trans h.popped.length_le
  have hsize := h.size
  obtain ⟨hdouble, hcopied⟩ := Array.resize_pop (a := s.arrays s.array) (show top ≤ bottom by omega)
    (hbottom ▸ h.lt) (by omega)
  have hlast : (s.arrays s.array).last = s.pushed.length := h.last (by rw [← ht, hpc]; simp)
  obtain ⟨hfilled, hfirst', hlast'⟩ := Array.filled_resize (a := s.arrays s.array)
    (show top ≤ bottom by omega) (hbottom ▸ h.lt) fun i hi hlt =>
      (h.filled s.array (Nat.le_refl _) i).mpr ⟨i, by omega, by omega, rfl⟩
  have hnew : ∀ pc, ((s.grow bottom top s.array).goto t pc).arrays (s.array + 1) =
      (s.arrays s.array).resize bottom top := fun _ => Function.update_self _ _ _
  have hold : ∀ pc, ∀ n ≤ s.array, ((s.grow bottom top s.array).goto t pc).arrays n = s.arrays n :=
    fun _ n hn => Function.update_of_ne (by omega) _ _
  have hnewsize : ∀ pc, (((s.grow bottom top s.array).goto t pc).arrays (s.array + 1)).size =
      2 * (s.arrays s.array).size := fun pc => (congrArg Array.size (hnew pc)).trans hdouble
  refine ⟨h.top, h.bottom, h.lt, h.popped, ?_, ?_, fun i hi hlt => ?_, fun n hn => ?_, ?_, fun _ => ?_,
    ?_, h.nulls,
    fun hf => absurd (hrun.symm.trans hf) (by simp)⟩
  · refine Nat.lt_of_lt_of_eq ?_ (hnewsize _).symm
    omega
  · have hroom' := h.room
    refine Nat.le_trans ?_ (Nat.add_le_add_left (Nat.le_of_eq (hnewsize _).symm) _)
    show s.pushed.length ≤ s.popped.length + 2 * (s.arrays s.array).size
    omega
  · refine (congrArg (Array.pop · i) (hnew _)).trans ?_
    rw [hcopied i (htop.trans hi) (Nat.lt_of_lt_of_eq hlt hbottom.symm)]
    exact h.current i hi hlt
  · rcases Nat.lt_or_eq_of_le hn with hold' | rfl
    · rw [hold _ n (Nat.le_of_lt_succ hold')]
      exact h.filled n (Nat.le_of_lt_succ hold')
    · show (((s.grow bottom top s.array).goto t _).arrays (s.array + 1)).Filled
      rw [hnew]
      exact hfilled
  · refine Nat.le_trans (Nat.le_of_eq ?_) htop
    exact (congrArg Array.first (hnew _)).trans hfirst'
  · exact ((congrArg Array.last (hnew _)).trans hlast').trans hbottom
  · refine thread_of_update rfl ⟨ht, hbottom, ?_, rfl⟩ fun t' ht' => ?_
    · refine Nat.lt_of_lt_of_le ?_ (Nat.add_le_add_left (Nat.le_of_eq (hnewsize _).symm) _)
      show bottom < s.popped.length + 2 * (s.arrays s.array).size
      omega
    · refine (h.thread t').mono ⟨[], (List.append_nil _).symm⟩ (Nat.le_refl _) (Nat.le_succ _)
        (fun n hn _ => congrArg (Array.pop · _) (hold _ n hn)) fun he => absurd (he.trans ht.symm) ht'

theorem Inv.pushSlot (h : Inv owner s) (hrun : s.fault = false) {ctx : C} {bottom array : Nat}
    (hpc : s.pc t = .pushSlot ctx bottom array) :
    Inv owner ((s.setArray array ((s.arrays array).push bottom (some ctx))).goto t
      (.pushStore ctx bottom)) := by
  have hthread := h.thread t
  rw [hpc] at hthread
  obtain ⟨ht, hbottom, hroom, rfl⟩ := hthread
  have hlast : (s.arrays s.array).last = bottom := (h.last (by rw [← ht, hpc]; simp)).trans hbottom.symm
  have hle := h.first.trans h.popped.length_le
  have hself : ∀ pc, ((s.setArray s.array ((s.arrays s.array).push bottom (some ctx))).goto t pc).arrays
      s.array = (s.arrays s.array).push bottom (some ctx) := fun _ => Function.update_self _ _ _
  -- the owner writes beyond the contexts of the queue, less than a round ahead
  have hslot : ∀ i, s.popped.length ≤ i → i < s.pushed.length →
      ((s.arrays s.array).push bottom (some ctx)).pop i = (s.arrays s.array).pop i := fun i hi hlt =>
    Array.push_pop_of_ne (Array.mod_ne_of_lt (by omega) (by omega))
  refine ⟨h.top, h.bottom, h.lt, h.popped, ?_, ?_, fun i hi hlt => ?_, fun n hn => ?_, ?_,
    fun hnot => ?_, ?_, h.nulls,
    fun hf => absurd (hrun.symm.trans hf) (by simp)⟩
  · exact Nat.lt_of_lt_of_eq h.size (congrArg Array.size (hself _)).symm
  · exact h.room.trans_eq (congrArg (s.popped.length + Array.size ·) (hself _)).symm
  · refine (congrArg (Array.pop · i) (hself _)).trans ?_
    rw [hslot i hi hlt]
    exact h.current i hi hlt
  · by_cases hn' : n = s.array
    · rw [hn', hself, ← hlast]
      exact (h.filled s.array (Nat.le_refl _)).push (by omega) ctx
    · refine (congrArg Array.Filled (Function.update_of_ne hn' _ _)).mpr ?_
      exact h.filled n hn
  · exact (Nat.le_of_eq (congrArg Array.first (hself _))).trans h.first
  · refine absurd ?_ (hnot ctx bottom)
    rw [← ht]
    exact Function.update_self _ _ _
  · refine thread_of_update rfl ⟨ht, hbottom, ?_, ?_, ?_⟩ fun t' ht' => ?_
    · exact hroom.trans_eq (congrArg (s.popped.length + Array.size ·) (hself _)).symm
    · exact congrArg Array.last (hself _)
    · exact (congrArg (Array.pop · bottom) (hself _)).trans (Array.push_pop_self _ _ _)
    · refine (h.thread t').mono ⟨[], (List.append_nil _).symm⟩ (Nat.le_refl _) (Nat.le_refl _)
        (fun n hn hlt => ?_) fun he => absurd (he.trans ht.symm) ht'
      by_cases hn' : n = s.array
      · rw [hn']
        exact (congrArg (Array.pop · s.popped.length) (hself _)).trans
          (hslot s.popped.length (Nat.le_refl _) hlt)
      · exact congrArg (Array.pop · s.popped.length) (Function.update_of_ne hn' _ _)

theorem Inv.pushStore (h : Inv owner s) (hrun : s.fault = false) {ctx : C} {bottom : Nat}
    (hpc : s.pc t = .pushStore ctx bottom) (hlt : s.pushed.length + 1 < 2 ^ 64) :
    Inv owner ({ s with bottom := (bottom + 1) % 2 ^ 64, pushed := s.pushed ++ [ctx] }.goto t .idle) := by
  have hthread := h.thread t
  rw [hpc] at hthread
  obtain ⟨ht, hbottom, hroom, hlast, hstored⟩ := hthread
  have hlength : (s.pushed ++ [ctx]).length = s.pushed.length + 1 := List.length_append
  refine ⟨h.top, ?_, hlength ▸ hlt, h.popped.trans (List.prefix_append _ _), h.size, ?_,
    fun i hi hi' => ?_, h.filled, h.first, fun _ => ?_, ?_, h.nulls, fun hf => absurd (hrun.symm.trans hf) (by simp)⟩
  · show (bottom + 1) % 2 ^ 64 = (s.pushed ++ [ctx]).length
    rw [hlength, hbottom, Nat.mod_eq_of_lt hlt]
  · show (s.pushed ++ [ctx]).length ≤ _
    rw [hlength, ← hbottom]
    exact hroom
  · show (s.arrays s.array).pop i = (s.pushed ++ [ctx])[i]?
    rcases Nat.lt_or_eq_of_le (Nat.le_of_lt_succ (Nat.lt_of_lt_of_eq hi' hlength)) with hlow | rfl
    · rw [List.getElem?_append_left hlow]
      exact h.current i hi hlow
    · rw [← hbottom, hstored, hbottom, List.getElem?_concat_length]
  · exact (hlast.trans (congrArg (· + 1) hbottom)).trans hlength.symm
  · refine thread_of_update rfl trivial fun t' ht' => ?_
    exact (h.thread t').mono ⟨[ctx], rfl⟩ (Nat.le_refl _) (Nat.le_refl _) (fun _ _ _ => rfl)
      fun he => absurd (he.trans ht.symm) ht'

theorem prefix_concat {α : Type*} {l m : List α} {x : α} (h : l <+: m) (hx : m[l.length]? = some x) :
    l ++ [x] <+: m := by
  obtain ⟨r, rfl⟩ := h
  rw [List.getElem?_append_right (Nat.le_refl _), Nat.sub_self] at hx
  cases r with
  | nil => exact absurd hx (by simp)
  | cons y r =>
    obtain rfl : y = x := Option.some.inj hx
    exact ⟨r, by rw [List.append_assoc]; rfl⟩

theorem Inv.win (h : Inv owner s) (hrun : s.fault = false) {ctx : C} {top popped pushed : Nat}
    (hpc : s.pc t = .popExchange top ctx popped pushed) (htop : s.top = top) :
    Inv owner ({ s with top := (top + 1) % 2 ^ 64, popped := s.popped ++ [ctx] }.goto t .idle) := by
  have hthread := h.thread t
  rw [hpc] at hthread
  obtain ⟨hreads, hvalue⟩ := hthread
  have he : s.popped.length = popped := by rw [← h.top, htop, hreads.top]
  have hlt := he ▸ hreads.lt.trans_le hreads.pushed_le
  have hbound := h.lt
  have hprefix : s.popped ++ [ctx] <+: s.pushed :=
    prefix_concat h.popped (he ▸ hvalue he)
  have hlength : (s.popped ++ [ctx]).length = s.popped.length + 1 := List.length_append
  refine ⟨?_, h.bottom, h.lt, hprefix, h.size, ?_, fun i hi hi' => ?_, h.filled, ?_, ?_, ?_, h.nulls,
    fun hf => absurd (hrun.symm.trans hf) (by simp)⟩
  · show (top + 1) % 2 ^ 64 = (s.popped ++ [ctx]).length
    rw [hlength, ← htop, h.top, Nat.mod_eq_of_lt (by omega)]
  · show s.pushed.length ≤ (s.popped ++ [ctx]).length + (s.arrays s.array).size
    have hroom := h.room
    omega
  · have hi : (s.popped ++ [ctx]).length ≤ i := hi
    exact h.current i (by omega) hi'
  · show (s.arrays s.array).first ≤ (s.popped ++ [ctx]).length
    have hfirst := h.first
    omega
  · exact h.last_of_goto rfl rfl rfl (by rw [hpc]; simp)
  · refine thread_of_update rfl trivial fun t' _ => ?_
    refine (h.thread t').mono ⟨[], (List.append_nil _).symm⟩ ?_ (Nat.le_refl _) (fun _ _ _ => rfl)
      fun _ => ⟨rfl, rfl, rfl⟩
    show s.popped.length ≤ (s.popped ++ [ctx]).length
    omega

theorem Inv.returnNull (h : Inv owner s) (hrun : s.fault = false) {popped pushed : Nat}
    (hpc : ∀ ctx bottom, s.pc t ≠ .pushStore ctx bottom)
    (hnull : pushed ≤ popped ∨ popped < s.popped.length) : Inv owner (s.returnNull t popped pushed) := by
  refine ⟨h.top, h.bottom, h.lt, h.popped, h.size, h.room, h.current, h.filled, h.first, ?_, ?_,
    fun r hr => ?_, fun hf => absurd (hrun.symm.trans hf) (by simp)⟩
  · exact h.last_of_goto rfl rfl rfl hpc
  · refine thread_of_update rfl trivial fun t' _ => ?_
    exact (h.thread t').mono ⟨[], (List.append_nil _).symm⟩ (Nat.le_refl _) (Nat.le_refl _)
      (fun _ _ _ => rfl) fun _ => ⟨rfl, rfl, rfl⟩
  · rcases List.mem_append.mp hr with hr | hr
    · exact h.nulls r hr
    · rw [List.mem_singleton.mp hr]
      exact hnull

/-! ### Runs -/

theorem Inv.go (h : Inv owner s) (hrun : s.fault = false) (hs : s.go t = some u)
    (hlt : u.pushed.length < 2 ^ 64) : Inv owner u := by
  have hthread := h.thread t
  have hsize := h.size
  rw [State.go] at hs
  split at hs
  case h_1 => exact absurd hs (by simp)
  case h_2 ctx hpc =>
    rw [hpc] at hthread
    rw [← Option.some.inj hs]
    exact h.goto hrun (by rw [hpc]; simp) ⟨hthread, h.bottom⟩
  case h_3 ctx bottom hpc =>
    rw [hpc] at hthread
    rw [← Option.some.inj hs]
    refine h.goto hrun (by rw [hpc]; simp) ⟨hthread.1, hthread.2, Nat.le_of_eq h.top, ?_, ?_⟩
    · rw [hthread.2, h.top]
      exact h.room
    · rw [h.top]
      exact h.first
  case h_4 ctx bottom top hpc =>
    rw [hpc] at hthread
    obtain ⟨ht, hbottom, htop, hroom, hfirst⟩ := hthread
    rw [← Option.some.inj hs]
    exact h.goto hrun (by rw [hpc]; simp) ⟨ht, hbottom, htop, hroom, hfirst, rfl⟩
  case h_5 ctx bottom top array hpc =>
    rw [hpc] at hthread
    obtain ⟨ht, hbottom, htop, hroom, _, harray⟩ := hthread
    split_ifs at hs with hfull
    · rw [← Option.some.inj hs]
      exact h.grow hrun hpc
    · rw [← Option.some.inj hs]
      have hle := htop.trans h.popped.length_le
      rw [Array.distance_eq (by omega) (hbottom ▸ h.lt), harray] at hfull
      exact h.goto hrun (by rw [hpc]; simp) ⟨ht, hbottom, by omega, harray⟩
  case h_6 ctx bottom array hpc =>
    rw [← Option.some.inj hs]
    exact h.pushSlot hrun hpc
  case h_7 ctx bottom hpc =>
    obtain rfl := Option.some.inj hs
    refine h.pushStore hrun hpc ?_
    have hlength : (s.pushed ++ [ctx]).length = s.pushed.length + 1 := List.length_append
    rw [← hlength]
    exact hlt
  case h_8 hpc =>
    rw [← Option.some.inj hs]
    exact h.goto hrun (by rw [hpc]; simp) ⟨h.top, Nat.le_refl _⟩
  case h_9 top popped hpc =>
    rw [hpc] at hthread
    obtain ⟨htop, hle⟩ := hthread
    rw [h.bottom] at hs
    split_ifs at hs with hnonempty
    · rw [← Option.some.inj hs]
      exact h.goto hrun (by rw [hpc]; simp) ⟨htop, hle, htop ▸ hnonempty, Nat.le_refl _⟩
    · rw [← Option.some.inj hs]
      exact h.returnNull hrun (by rw [hpc]; simp) (.inl (htop ▸ Nat.not_lt.mp hnonempty))
  case h_10 top popped pushed hpc =>
    rw [hpc] at hthread
    rw [← Option.some.inj hs]
    refine h.goto hrun (by rw [hpc]; simp) ⟨hthread, Nat.le_refl _, fun he => ?_⟩
    rw [hthread.top]
    exact h.current popped (Nat.le_of_eq he) (hthread.lt.trans_le hthread.pushed_le)
  case h_11 top array popped pushed hpc =>
    rw [hpc] at hthread
    obtain ⟨hreads, hle, hslot⟩ := hthread
    split at hs
    case h_1 ctx hctx =>
      rw [← Option.some.inj hs]
      exact h.goto hrun (by rw [hpc]; simp) ⟨hreads, fun he => (hslot he).symm.trans hctx⟩
    case h_2 hnone =>
      rw [← Option.some.inj hs]
      refine ⟨h.top, h.bottom, h.lt, h.popped, h.size, h.room, h.current, h.filled, h.first, h.last,
        fun t' => ?_, h.nulls,
        fun _ => ⟨t, top, array, popped, pushed, hpc, Nat.lt_of_le_of_ne hreads.popped_le fun he => ?_⟩⟩
      · exact (h.thread t').mono ⟨[], (List.append_nil _).symm⟩ (Nat.le_refl _) (Nat.le_refl _)
          (fun _ _ _ => rfl) fun _ => ⟨rfl, rfl, rfl⟩
      · have hget := (hslot he.symm).symm.trans hnone
        exact absurd (hreads.lt.trans_le hreads.pushed_le) (List.getElem?_eq_none_iff.mp hget).not_gt
  case h_12 top ctx popped pushed hpc =>
    rw [hpc] at hthread
    obtain ⟨hreads, -⟩ := hthread
    split_ifs at hs with hwin
    · rw [← Option.some.inj hs]
      exact h.win hrun hpc hwin
    · rw [← Option.some.inj hs]
      refine h.returnNull hrun (by rw [hpc]; simp) (.inr (Nat.lt_of_le_of_ne hreads.popped_le fun he => hwin ?_))
      rw [h.top, hreads.top, he]

theorem Inv.step {a : Action Θ C} (h : Inv owner s) (hs : step owner s a = some u)
    (hlt : u.pushed.length < 2 ^ 64) : Inv owner u := by
  rw [ContextSpmcQueue.step] at hs
  split_ifs at hs with hfault
  have hrun : s.fault = false := Bool.eq_false_iff.mpr hfault
  cases a with
  | push ctx =>
    rw [enabledStep] at hs
    split at hs
    case h_1 hpc =>
      rw [← Option.some.inj hs]
      exact h.goto hrun (by rw [hpc]; simp) rfl
    case h_2 => exact absurd hs (by simp)
  | pop t =>
    rw [enabledStep] at hs
    split at hs
    case h_1 hpc =>
      rw [← Option.some.inj hs]
      exact h.goto hrun (by rw [hpc]; simp) trivial
    case h_2 => exact absurd hs (by simp)
  | go t => exact h.go hrun hs hlt

theorem step_pushed {a : Action Θ C} (hs : step owner s a = some u) :
    s.pushed.length ≤ u.pushed.length := by
  rw [ContextSpmcQueue.step] at hs
  split_ifs at hs
  cases a with
  | push ctx =>
    rw [enabledStep] at hs
    split at hs
    · obtain rfl := Option.some.inj hs
      exact Nat.le_refl _
    · exact absurd hs (by simp)
  | pop t =>
    rw [enabledStep] at hs
    split at hs
    · obtain rfl := Option.some.inj hs
      exact Nat.le_refl _
    · exact absurd hs (by simp)
  | go t =>
    rw [enabledStep, State.go] at hs
    split at hs
    case h_1 => exact absurd hs (by simp)
    case h_7 =>
      obtain rfl := Option.some.inj hs
      exact (List.prefix_append s.pushed _).length_le
    case h_5 | h_9 | h_11 | h_12 =>
      split at hs
      all_goals
        obtain rfl := Option.some.inj hs
        exact Nat.le_refl _
    all_goals
      obtain rfl := Option.some.inj hs
      exact Nat.le_refl _

theorem Inv.start (C : Type*) (owner : Θ) : Inv owner (machine C owner).start := by
  refine ⟨rfl, rfl, show 0 < 2 ^ 64 by decide, List.prefix_refl _, show 0 < 1024 by decide, Nat.zero_le _,
    fun i _ hi => absurd hi (Nat.not_lt_zero i), fun _ _ => Array.filled_create 1024 0, Nat.le_refl 0,
    fun _ => rfl, fun _ => trivial, fun r hr => absurd hr List.not_mem_nil,
    fun hf => absurd (show false = true from hf) (by decide)⟩

theorem inv_of_reachable (h : (machine C owner).Reachable s) :
    s.pushed.length < 2 ^ 64 → Inv owner s :=
  h.invariant (P := fun s => s.pushed.length < 2 ^ 64 → Inv owner s) (fun _ => Inv.start C owner)
    fun _ _ _ hinv hs hlt => (hinv (Nat.lt_of_le_of_lt (step_pushed hs) hlt)).step hs hlt

end Dumbo.Fiber.ContextSpmcQueue
