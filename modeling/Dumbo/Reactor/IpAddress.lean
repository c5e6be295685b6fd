import Mathlib.Data.BitVec
import Mathlib.Data.Fin.Basic
import Mathlib.Data.List.FinRange
import Mathlib.Logic.Function.Basic
import Mathlib.Tactic.IntervalCases

/-!
# The construction of IP addresses

`IPAddress` on a little-endian host. Octets behind a pointer are a function of their index.
-/

namespace Dumbo.Reactor

structure InAddr where
  sAddr : BitVec 32
  deriving DecidableEq, Repr

structure In6Addr where
  /-- `__u6_addr8` -/
  u6Addr8 : Fin 16 → BitVec 8
  deriving DecidableEq

namespace IpAddress

/-- What `boost::get` throws. -/
inductive Error
  | badGet
  deriving DecidableEq, Repr

/-- What is used of `boost::variant<in_addr, in6_addr>`. -/
structure Variant (V : Type) where
  /-- `AddressT address_{}` -/
  create : V
  /-- the alternative that is held, which `boost::apply_visitor` visits -/
  visit : V → InAddr ⊕ In6Addr
  /-- `boost::get<in_addr>(address_) = addr` -/
  setInAddr : V → InAddr → Except Error V
  /-- `boost::get<in6_addr>(address_) = addr` -/
  setIn6Addr : V → In6Addr → Except Error V

/-- The first alternative is constructed by default, and `boost::get` throws unless its alternative is held. -/
structure Variant.Lawful {V : Type} (variant : Variant V) : Prop where
  create : ∃ addr, variant.visit variant.create = .inl addr
  setInAddr_held : ∀ v old addr, variant.visit v = .inl old →
    ∃ w, variant.setInAddr v addr = .ok w ∧ variant.visit w = .inl addr
  setInAddr_throws : ∀ v old addr, variant.visit v = .inr old → variant.setInAddr v addr = .error .badGet
  setIn6Addr_held : ∀ v old addr, variant.visit v = .inr old →
    ∃ w, variant.setIn6Addr v addr = .ok w ∧ variant.visit w = .inr addr
  setIn6Addr_throws : ∀ v old addr, variant.visit v = .inl old → variant.setIn6Addr v addr = .error .badGet

/-- `((in_addr_t)octet) << shift` -/
def octet (x : BitVec 8) (shift : Nat) : BitVec 32 := x.setWidth 32 <<< shift

/-- The swap of the four bytes. -/
def htonl (value : BitVec 32) : BitVec 32 :=
  value <<< 24 ||| (value &&& 0xff00) <<< 8 ||| (value >>> 8 &&& 0xff00) ||| value >>> 24

section Constructors

variable {V : Type} (variant : Variant V)

/-- `IPAddress(oct3, oct2, oct1, oct0)` -/
def ofFour (oct3 oct2 oct1 oct0 : BitVec 8) : Except Error V :=
  let value := octet oct3 24 ||| octet oct2 16 ||| octet oct1 8 ||| octet oct0 0
  variant.setInAddr variant.create ⟨htonl value⟩

/-- `IPAddress(octets, v4)` -/
def ofOctets (octets : Nat → BitVec 8) (v4 : Bool) : Except Error V :=
  if v4 then
    let addr := (List.range 4).foldl (fun (addr : InAddr) c => ⟨addr.sAddr ||| octet (octets c) (c * 8)⟩) ⟨0⟩
    variant.setInAddr variant.create addr
  else
    let addr := (List.finRange 16).foldl
      (fun (addr : In6Addr) c => ⟨Function.update addr.u6Addr8 c (octets c)⟩) ⟨fun _ => 0⟩
    variant.setIn6Addr variant.create addr

/-- `is_v4` -/
def isV4 (address : V) : Bool :=
  match variant.visit address with
  | .inl _ => true
  | .inr _ => false

/-- The bytes of an `in_addr` in memory, the low ones first. -/
def InAddr.bytes (addr : InAddr) : List (BitVec 8) :=
  (List.range 4).map fun c => addr.sAddr.extractLsb' (c * 8) 8

def bytes (address : V) : List (BitVec 8) :=
  match variant.visit address with
  | .inl addr => InAddr.bytes addr
  | .inr addr => List.ofFn addr.u6Addr8

end Constructors

/-! ### IPv4 -/

/-- The first octet in the low byte. -/
def packed (a b c d : BitVec 8) : BitVec 32 := octet a 0 ||| octet b 8 ||| octet c 16 ||| octet d 24

theorem htonl_octets (a b c d : BitVec 8) :
    htonl (octet a 24 ||| octet b 16 ||| octet c 8 ||| octet d 0) = packed a b c d := by
  apply BitVec.eq_of_getLsbD_eq
  intro i hi
  simp only [htonl, packed, octet]
  interval_cases i <;> simp

theorem bytes_packed (a b c d : BitVec 8) : InAddr.bytes ⟨packed a b c d⟩ = [a, b, c, d] := by
  have hbyte : ∀ x y : BitVec 8, (∀ i < 8, x.getLsbD i = y.getLsbD i) → x = y :=
    fun _ _ h => BitVec.eq_of_getLsbD_eq h
  simp only [InAddr.bytes, List.range_succ, List.range_zero, List.nil_append, List.cons_append,
    List.map_cons, List.map_nil, List.cons.injEq, and_true, packed, octet]
  refine ⟨?_, ?_, ?_, ?_⟩
  all_goals
    apply hbyte
    intro i hi
    interval_cases i <;> simp

section Results

variable {V : Type} (variant : Variant V)

theorem ofFour_eq (a b c d : BitVec 8) :
    ofFour variant a b c d = variant.setInAddr variant.create ⟨packed a b c d⟩ := by
  rw [ofFour, htonl_octets]

theorem ofOctets_v4 (octets : Nat → BitVec 8) : ofOctets variant octets true =
    variant.setInAddr variant.create ⟨packed (octets 0) (octets 1) (octets 2) (octets 3)⟩ := by
  have hloop : (0 : BitVec 32) ||| octet (octets 0) 0 = octet (octets 0) 0 := BitVec.zero_or
  simp only [ofOctets, if_true, List.range_succ, List.range_zero, List.nil_append, List.cons_append,
    List.foldl_cons, List.foldl_nil, Nat.zero_mul, hloop]
  rfl

/-! ### IPv6 -/

variable {variant}

/-- The variant holds an `in_addr` when the octets are to be stored. -/
theorem ofOctets_v6 (h : variant.Lawful) (octets : Nat → BitVec 8) :
    ofOctets variant octets false = .error .badGet := by
  obtain ⟨addr, haddr⟩ := h.create
  exact h.setIn6Addr_throws variant.create addr _ haddr

variable (variant) in
/-- What the constructor from octets is to yield. -/
def Constructed (octets : Nat → BitVec 8) : Bool → Prop
  | true => ∃ address, ofOctets variant octets true = .ok address ∧
      ofFour variant (octets 0) (octets 1) (octets 2) (octets 3) = .ok address ∧
        isV4 variant address = true ∧
          bytes variant address = [octets 0, octets 1, octets 2, octets 3]
  | false => ∃ address, ofOctets variant octets false = .ok address ∧ isV4 variant address = false ∧
      bytes variant address = (List.range 16).map octets

/-- An address is constructed from octets just when it is an IPv4 address. -/
theorem constructed_iff (h : variant.Lawful) (octets : Nat → BitVec 8) (v4 : Bool) :
    Constructed variant octets v4 ↔ v4 = true := by
  cases v4 with
  | true =>
    refine ⟨fun _ => rfl, fun _ => ?_⟩
    obtain ⟨addr, haddr⟩ := h.create
    obtain ⟨w, hw, hvisit⟩ := h.setInAddr_held variant.create addr
      ⟨packed (octets 0) (octets 1) (octets 2) (octets 3)⟩ haddr
    refine ⟨w, (ofOctets_v4 variant octets).trans hw, (ofFour_eq variant _ _ _ _).trans hw, ?_, ?_⟩
    · rw [isV4, hvisit]
    · rw [bytes, hvisit]
      exact bytes_packed _ _ _ _
  | false =>
    refine ⟨?_, fun hv4 => absurd hv4 Bool.false_ne_true⟩
    rintro ⟨address, haddress, _⟩
    rw [ofOctets_v6 h] at haddress
    exact absurd haddress (by simp)

end Results

/-- A variant that is the sum of its alternatives. -/
def Variant.sum : Variant (InAddr ⊕ In6Addr) where
  create := .inl ⟨0⟩
  visit address := address
  setInAddr
    | .inl _, addr => .ok (.inl addr)
    | .inr _, _ => .error .badGet
  setIn6Addr
    | .inl _, _ => .error .badGet
    | .inr _, addr => .ok (.inr addr)

theorem Variant.sum_lawful : Variant.sum.Lawful where
  create := ⟨⟨0⟩, rfl⟩
  setInAddr_held := by
    rintro v old addr rfl
    exact ⟨.inl addr, rfl, rfl⟩
  setInAddr_throws := by
    rintro v old addr rfl
    rfl
  setIn6Addr_held := by
    rintro v old addr rfl
    exact ⟨.inr addr, rfl, rfl⟩
  setIn6Addr_throws := by
    rintro v old addr rfl
    rfl

/-- `127.0.0.1` -/
theorem constructed_iff_localhost : Constructed Variant.sum
    (fun c => if c = 0 then 127 else if c = 3 then 1 else 0) true :=
  (constructed_iff Variant.sum_lawful _ true).mpr rfl

/-- The loopback address, `::1`. -/
theorem not_constructed_loopback : ¬ Constructed Variant.sum (fun c => if c = 15 then 1 else 0) false := by
  rintro ⟨address, haddress, _⟩
  rw [ofOctets_v6 Variant.sum_lawful] at haddress
  exact absurd haddress (by simp)

end IpAddress

end Dumbo.Reactor
