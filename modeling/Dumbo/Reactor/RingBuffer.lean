import Dumbo.Lib.Fifo
import Dumbo.Lib.Machine
import Dumbo.Lib.Mask

/-!
# The buffer of a reactor's I/O messages

`RingBuffer` refines a bounded queue.
-/

namespace Dumbo.Reactor

open Transition

/-- `++i` on an `int64_t`, which wraps around. -/
def next64 (i : Int) : Int := (i + 1).bmod (2 ^ 64)

structure RingBuffer (α : Type*) where
  buffer : Nat → α
  /-- `buffer_.size()` -/
  size : Nat
  tail : Int
  head : Int

namespace RingBuffer

variable {α : Type*}

/-- The constructor, which fills the buffer with a default value. -/
def create (default : α) (size : Nat) : RingBuffer α := ⟨fun _ => default, size, 0, 0⟩

def available (r : RingBuffer α) : Nat := unsigned64 (r.head - r.tail)

def capacity (r : RingBuffer α) : Nat := unsigned64 (r.size - r.available)

/-- `capacity_i`, converted to an `int`. -/
def capacityI (r : RingBuffer α) : Int := (r.capacity : Int).bmod (2 ^ 32)

def ringSize (r : RingBuffer α) : Nat := r.size

def idx (r : RingBuffer α) (i : Int) : Nat := unsigned64 i &&& (r.size - 1)

/-- `none` where the assertion fails. -/
def popBack (r : RingBuffer α) : Option (α × RingBuffer α) :=
  if r.tail < r.head then some (r.buffer (r.idx r.tail), { r with tail := next64 r.tail }) else none

def pushFront (r : RingBuffer α) (value : α) : Option (RingBuffer α) :=
  if r.available < r.ringSize then
    some { r with
      buffer := Function.update r.buffer (r.idx r.head) value
      head := next64 r.head }
  else none

/-! ### The queue inside -/

/-- The values inside, the oldest first. -/
def contents (r : RingBuffer α) : List α :=
  (List.range r.available).map fun (i : Nat) => r.buffer (r.idx (r.tail + i))

variable {k : Nat} {r : RingBuffer α}

theorem length_contents (r : RingBuffer α) : r.contents.length = r.available := by
  rw [contents, List.length_map, List.length_range]

/-! ### Buffers in any state -/

/-- A buffer of a power of two, wherever its counters are. -/
structure Sized (k : Nat) (r : RingBuffer α) : Prop where
  size : r.size = 2 ^ k
  room : r.available ≤ 2 ^ k

theorem unsigned64_next (i j : Int) (h : unsigned64 (i - j) + 1 < 2 ^ 64) :
    unsigned64 (next64 i - j) = unsigned64 (i - j) + 1 := by
  have hnext : (next64 i - j) % 2 ^ 64 = (i - j + 1) % 2 ^ 64 := by
    rw [next64, Int.sub_emod, show (2 : Int) ^ 64 = ((2 ^ 64 : Nat) : Int) by norm_num, Int.bmod_emod,
      ← Int.sub_emod]
    congr 1
    omega
  unfold unsigned64 at h ⊢
  rw [hnext]
  omega

theorem Sized.capacity (hk : k < 64) (h : Sized k r) : r.capacity + r.available = r.ringSize := by
  have hle := h.room
  have hpow : 2 ^ k < 2 ^ 64 := Nat.pow_lt_pow_right (by omega) hk
  have hcast : ((2 ^ k : Nat) : Int) - (r.available : Int) = ((2 ^ k - r.available : Nat) : Int) := by
    rw [Nat.cast_sub hle]
  rw [RingBuffer.capacity, ringSize, h.size, hcast, unsigned64_natCast (by omega)]
  omega

/-- The slots of the values inside are all different, and different from the next. -/
theorem Sized.idx_ne (hk : k < 64) (h : Sized k r) {i j : Int} (hlt : |i - j| < 2 ^ k) (hij : i ≠ j) :
    r.idx i ≠ r.idx j := by
  rw [idx, idx, h.size]
  exact fun he => hij (mask_inj (Nat.le_of_lt hk) he hlt)

theorem idx_head (r : RingBuffer α) : r.idx r.head = r.idx (r.tail + r.available) := by
  have hcongr : r.head % 2 ^ 64 = (r.tail + r.available) % 2 ^ 64 := by
    rw [available, unsigned64]
    omega
  rw [idx, idx, unsigned64, unsigned64, hcongr]

theorem Sized.pushFront (hk : k < 64) (h : Sized k r) (hroom : r.available < 2 ^ k) (value : α) :
    ∃ r', r.pushFront value = some r' ∧ Sized k r' ∧ r'.available = r.available + 1 ∧
      r'.contents = r.contents ++ [value] := by
  have hpow : 2 ^ k ≤ 2 ^ 63 := Nat.pow_le_pow_right (by omega) (by omega)
  have hcast : (r.available : Int) < 2 ^ k := by exact_mod_cast hroom
  refine ⟨_, if_pos (by rw [ringSize, h.size]; exact hroom), ?_⟩
  have hgrown : unsigned64 (next64 r.head - r.tail) = r.available + 1 :=
    unsigned64_next r.head r.tail (by rw [available] at hroom; omega)
  refine ⟨⟨h.size, Nat.le_trans (Nat.le_of_eq hgrown) hroom⟩, hgrown, ?_⟩
  rw [contents, available, hgrown, List.range_succ, List.map_append, List.map_singleton]
  congr 1
  · refine List.map_congr_left fun i hi => ?_
    rw [List.mem_range] at hi
    have hne : r.idx (r.tail + i) ≠ r.idx r.head := by
      rw [idx_head]
      refine h.idx_ne hk ?_ (by omega)
      rw [abs_lt]
      constructor <;> omega
    exact Function.update_of_ne hne _ _
  · rw [idx_head]
    exact congrArg (fun v => [v]) (Function.update_self _ _ _)

theorem bmod_natCast_le (c n : Nat) : (c : Int).bmod n ≤ c := by
  have hle : (c : Int) % n ≤ c := by exact_mod_cast Nat.mod_le c n
  rw [Int.bmod_def]
  split
  · exact hle
  · omega

theorem capacityI_le (r : RingBuffer α) : r.capacityI ≤ r.capacity := bmod_natCast_le _ _

/-! ### Counters that have not wrapped around -/

/-- A buffer of a power of two whose counters have not wrapped around. -/
structure Ok (k : Nat) (r : RingBuffer α) : Prop where
  size : r.size = 2 ^ k
  tail : 0 ≤ r.tail
  le : r.tail ≤ r.head
  room : r.head ≤ r.tail + 2 ^ k
  head : r.head < 2 ^ 63

theorem next64_of_lt {i : Int} (h0 : 0 ≤ i) (h : i + 1 < 2 ^ 63) : next64 i = i + 1 := by
  rw [next64, Int.bmod_eq_of_le]
  · omega
  · omega

theorem Ok.create (k : Nat) (default : α) : Ok k (create default (2 ^ k)) := by
  refine ⟨rfl, Int.le_refl 0, Int.le_refl 0, ?_, by norm_num [RingBuffer.create]⟩
  have hpos : (0 : Int) < 2 ^ k := by positivity
  simp only [RingBuffer.create]
  omega

theorem Ok.available (h : Ok k r) : (r.available : Int) = r.head - r.tail := by
  have htail := h.tail
  have hle := h.le
  have hhead := h.head
  exact unsigned64_of_lt (by omega) (by omega)

theorem Ok.available_le (h : Ok k r) : r.available ≤ 2 ^ k := by
  have hroom := h.room
  have havailable := h.available
  have hle : (r.available : Int) ≤ ((2 ^ k : Nat) : Int) := by
    push_cast
    omega
  exact_mod_cast hle

theorem Ok.sized (h : Ok k r) : Sized k r := ⟨h.size, h.available_le⟩

theorem Ok.pushFront {value : α} {r' : RingBuffer α} (hk : k < 64) (h : Ok k r)
    (hlt : r.head + 1 < 2 ^ 63) (hs : r.pushFront value = some r') :
    Ok k r' ∧ r'.head = r.head + 1 ∧ r.available < 2 ^ k ∧ r'.contents = r.contents ++ [value] := by
  obtain ⟨hroom, hr'⟩ := Option.ite_none_right_eq_some.mp hs |>.imp_right Option.some.inj
  rw [ringSize, h.size] at hroom
  obtain ⟨r'', hr'', hsized, _, hcontents⟩ := h.sized.pushFront hk hroom value
  obtain rfl := Option.some.inj (hs.symm.trans hr'')
  have htail := h.tail
  have hle := h.le
  have havailable := h.available
  have hroom' : (r.available : Int) < 2 ^ k := by exact_mod_cast hroom
  have hhead : r'.head = r.head + 1 := by
    rw [← hr']
    exact next64_of_lt (Int.le_trans htail hle) hlt
  have htail' : r'.tail = r.tail := by rw [← hr']
  exact ⟨⟨hsized.size, by omega, by omega, by omega, by omega⟩, hhead, hroom, hcontents⟩

theorem Ok.popBack {value : α} {r' : RingBuffer α} (h : Ok k r) (hs : r.popBack = some (value, r')) :
    Ok k r' ∧ r'.head = r.head ∧ r.contents = value :: r'.contents := by
  obtain ⟨hlt, hsome⟩ := Option.ite_none_right_eq_some.mp hs
  obtain ⟨hvalue, hr'⟩ := Prod.mk.inj (Option.some.inj hsome)
  have htail := h.tail
  have hhead := h.head
  have hroom := h.room
  have havailable := h.available
  have htail' : r'.tail = r.tail + 1 := by
    rw [← hr']
    exact next64_of_lt htail (by omega)
  have hhead' : r'.head = r.head := by rw [← hr']
  have hsize : r'.size = r.size := by rw [← hr']
  have hbuffer : r'.buffer = r.buffer := by rw [← hr']
  have hok : Ok k r' :=
    ⟨hsize.trans h.size, by omega, by omega, by omega, by omega⟩
  refine ⟨hok, hhead', ?_⟩
  have hless : r.available = r'.available + 1 := by
    have hnew := hok.available
    omega
  rw [contents, hless, List.range_succ_eq_map, List.map_cons, List.map_map, Nat.cast_zero, Int.add_zero,
    hvalue]
  refine congrArg (value :: ·) (List.map_congr_left fun i _ => ?_)
  rw [Function.comp_apply, hbuffer, idx, idx, hsize, htail']
  congr 3
  push_cast
  omega

/-! ### Runs -/

inductive Op (α : Type*)
  | push (value : α)
  | pop
  deriving DecidableEq, Repr

def Op.value : Op α → Option α
  | .push value => some value
  | .pop => none

/-- A buffer with the events of its queue. -/
structure Traced (α : Type*) where
  ring : RingBuffer α
  log : List (Fifo.Event α)

def step (s : Traced α) : Op α → Option (Traced α)
  | .push value => (s.ring.pushFront value).map fun ring => ⟨ring, s.log ++ [.push value]⟩
  | .pop => s.ring.popBack.map fun x => ⟨x.2, s.log ++ [.pop x.1]⟩

/-- The calls whose assertions hold. -/
def machine (default : α) (size : Nat) : Machine (Traced α) (Op α) := ⟨⟨create default size, []⟩, step⟩

structure Inv (k : Nat) (s : Traced α) : Prop where
  ok : Ok k s.ring
  run : Fifo.Run (2 ^ k) s.log ⟨s.ring.contents, false⟩

variable {s t : Traced α}

theorem Inv.step (hk : k < 64) (h : Inv k s) {a : Op α} (hlt : s.ring.head + 1 < 2 ^ 63)
    (hs : RingBuffer.step s a = some t) : Inv k t ∧ t.ring.head ≤ s.ring.head + 1 ∧
      Fifo.pushes t.log = Fifo.pushes s.log ++ a.value.toList := by
  cases a with
  | push value =>
    obtain ⟨ring, hring, rfl⟩ := Option.map_eq_some_iff.mp hs
    obtain ⟨hok, hhead, hroom, hcontents⟩ := h.ok.pushFront hk hlt hring
    refine ⟨⟨hok, h.run.snoc ?_⟩, Int.le_of_eq hhead, Fifo.pushes_concat _ _⟩
    rw [hcontents]
    exact .push (by rw [length_contents]; exact hroom)
  | pop =>
    obtain ⟨⟨value, ring⟩, hring, rfl⟩ := Option.map_eq_some_iff.mp hs
    obtain ⟨hok, hhead, hcontents⟩ := h.ok.popBack hring
    refine ⟨⟨hok, h.run.snoc ?_⟩, ?_, Fifo.pushes_concat _ _⟩
    · rw [hcontents]
      exact .pop
    · show ring.head ≤ s.ring.head + 1
      omega

theorem Inv.exec (hk : k < 64) (h : Inv k s) {default : α} {size : Nat} {as : List (Op α)}
    (hlt : s.ring.head + as.length < 2 ^ 63) (hrun : (machine default size).exec s as = some t) :
    Inv k t ∧ Fifo.pushes t.log = Fifo.pushes s.log ++ as.filterMap Op.value := by
  induction as generalizing s with
  | nil =>
    obtain rfl := Option.some.inj hrun
    exact ⟨h, (List.append_nil _).symm⟩
  | cons a as ih =>
    obtain ⟨u, hu, hrest⟩ := Machine.exec_cons.mp hrun
    rw [List.length_cons, Nat.cast_succ] at hlt
    obtain ⟨hinv, hhead, hpushes⟩ := h.step hk (by omega) hu
    obtain ⟨hlast, hall⟩ := ih hinv (by omega) hrest
    refine ⟨hlast, ?_⟩
    rw [hall, hpushes, List.append_assoc, List.filterMap_cons]
    cases hvalue : a.value <;> rfl

/-- The buffer is a queue of at most `2 ^ k` values. -/
structure Refines (k : Nat) (s : Traced α) : Prop where
  run : Fifo.Run (2 ^ k) s.log ⟨s.ring.contents, false⟩
  /-- the values come out as they have gone in, and the others are inside -/
  order : Fifo.pushes s.log = Fifo.pops s.log ++ s.ring.contents
  available : (Fifo.pops s.log).length + s.ring.available = (Fifo.pushes s.log).length
  capacity : s.ring.capacity + s.ring.available = s.ring.ringSize
  push : ∀ value, (s.ring.pushFront value).isSome ↔ s.ring.contents.length < 2 ^ k
  pop : s.ring.popBack.isSome ↔ s.ring.contents ≠ []

theorem Inv.refines (hk : k < 64) (h : Inv k s) : Refines k s := by
  have horder := h.run.conserve
  have havailable := h.ok.available
  refine ⟨h.run, horder, ?_, h.ok.sized.capacity hk, fun value => ?_, ?_⟩
  · rw [horder, List.length_append, length_contents]
  · rw [length_contents, pushFront, ringSize, h.ok.size, Option.isSome_ite]
  · rw [popBack, Option.isSome_ite, ← List.length_pos_iff, length_contents]
    omega

theorem ring_buffer_refines (hk : k < 64) (default : α) {as : List (Op α)} (hlen : as.length < 2 ^ 63)
    (hrun : (machine default (2 ^ k)).exec (machine default (2 ^ k)).start as = some s) :
    Refines k s ∧ Fifo.pushes s.log = as.filterMap Op.value := by
  have hcreated : Inv k (machine default (2 ^ k)).start := ⟨.create k default, .nil⟩
  have hlt : (machine default (2 ^ k)).start.ring.head + as.length < 2 ^ 63 := by
    show (0 : Int) + as.length < 2 ^ 63
    rw [Int.zero_add]
    exact_mod_cast hlen
  obtain ⟨hinv, hpushes⟩ := hcreated.exec hk hlt hrun
  exact ⟨hinv.refines hk, hpushes⟩

/-- Three values go through a buffer of two. -/
theorem ring_buffer_refines_two : ∃ s : Traced Nat, s.ring.contents = [3] ∧ Fifo.pops s.log = [1, 2] ∧
    Refines 1 s ∧ Fifo.pushes s.log = [1, 2, 3] := by
  obtain ⟨s, hs, hcontents, hpops⟩ : ∃ s, (machine 0 (2 ^ 1)).exec (machine 0 (2 ^ 1)).start
      [.push 1, .push 2, .pop, .pop, .push 3] = some s ∧ s.ring.contents = [3] ∧
        Fifo.pops s.log = [1, 2] := ⟨_, rfl, rfl, rfl⟩
  exact ⟨s, hcontents, hpops, ring_buffer_refines (by decide) 0 (by decide) hs⟩

end RingBuffer

end Dumbo.Reactor
