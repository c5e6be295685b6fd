import Dumbo.Lib.Mask
import Mathlib.Data.Int.Basic
import Mathlib.Algebra.Order.Group.Unbundled.Int

/-!
# Sequences and ring slots

The numbers that the disruptor's claim strategies, barriers and ring buffers compute with. An
`int64_t` sequence is an integer: a queue would have to carry 2^63 messages to leave its range.
-/

namespace Dumbo.Disruptor

open Transition

def kInitialCursorValue : Int := -1
def kNotReadySignal : Int := -4

/-- `GetMinimumSequence`: the fold starts from `LONG_MAX`, which depends on the data model. -/
def getMinimumSequence (longMax : Int) (sequences : List Int) : Int :=
  sequences.foldl (fun minimum sequence => if minimum < sequence then minimum else sequence) longMax

/-- `next_sequence - N`, the slot a claim must find released. -/
def wrapPoint (nextSequence : Int) (size : Nat) : Int := nextSequence - size

/-- The exit test of the wait loop in `IncrementAndGet`. -/
def hasRoom (longMax lastConsumer : Int) (dependents : List Int) (wrap : Int) : Bool :=
  !(lastConsumer < wrap) || !(getMinimumSequence longMax dependents < wrap)

/-- `DontWaitStrategy::WaitFor` for a barrier without dependents. -/
def dontWaitFor (sequence cursor : Int) : Int :=
  if cursor < sequence then kNotReadySignal else cursor

/-- `sequence & (N - 1)` in `RingBuffer::operator[]`: the sequence is converted to `size_t`. -/
def ringIndex (size : Nat) (sequence : Int) : Nat := (sequence % 2 ^ 64).toNat &&& (size - 1)

theorem getMinimumSequence_singleton_le (longMax sequence : Int) :
    getMinimumSequence longMax [sequence] ≤ sequence := by
  simp only [getMinimumSequence, List.foldl_cons, List.foldl_nil]
  split <;> omega

/-- With the one gating sequence of a queue, a passed wait loop means that the consumer has
released the slot. -/
theorem le_of_hasRoom {longMax lastConsumer sequence wrap : Int} (hlast : lastConsumer < wrap)
    (h : hasRoom longMax lastConsumer [sequence] wrap) : wrap ≤ sequence := by
  have hmin := getMinimumSequence_singleton_le longMax sequence
  simp only [hasRoom, Bool.or_eq_true, Bool.not_eq_eq_eq_not, Bool.not_true, decide_eq_false_iff_not,
    not_lt] at h
  omega

theorem hasRoom_eq_false {longMax lastConsumer sequence wrap : Int} :
    hasRoom longMax lastConsumer [sequence] wrap = false ↔
      lastConsumer < wrap ∧ (sequence < wrap ∨ longMax < wrap) := by
  have hmin : getMinimumSequence longMax [sequence] < wrap ↔ sequence < wrap ∨ longMax < wrap := by
    simp only [getMinimumSequence, List.foldl_cons, List.foldl_nil]
    split <;> omega
  rw [← hmin]
  simp [hasRoom]

theorem ringIndex_pow_two {k : Nat} (hk : k ≤ 64) (sequence : Int) :
    (ringIndex (2 ^ k) sequence : Int) = sequence % 2 ^ k := mask_eq hk sequence

/-- Two sequences closer than the ring size share a slot only if they are equal. -/
theorem ringIndex_inj {k : Nat} (hk : k ≤ 64) {a b : Int} (h : ringIndex (2 ^ k) a = ringIndex (2 ^ k) b)
    (hlt : |a - b| < 2 ^ k) : a = b := mask_inj hk h hlt

/-- Two sequences that a gating sequence `c` has not passed and that have passed the capacity check
against it have different slots. -/
theorem slot_ne {k : Nat} (hk : k ≤ 64) {a b c : Int} (ha : c < a) (ha' : a ≤ c + 2 ^ k) (hb : c < b)
    (hb' : b ≤ c + 2 ^ k) (hab : a ≠ b) : ringIndex (2 ^ k) a ≠ ringIndex (2 ^ k) b := by
  intro heq
  refine hab (ringIndex_inj hk heq ?_)
  rw [abs_lt]
  constructor <;> omega

end Dumbo.Disruptor
