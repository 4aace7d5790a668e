import Mathlib.Tactic

set_option autoImplicit false

/-! # Sixteen-bit sequence numbers

Item number `n` of a stream carries the number `wire n = n mod 2 ^ 16`. Two items less than
`2 ^ 16` apart are told apart by their numbers (`wire_inj`), and the wrapping difference of
two numbers is the distance of the items, taken modulo `2 ^ 16` (`toNat_wire_sub_of_le`,
`toNat_wire_sub_of_lt`).
-/

namespace SeqNum

/-- The number item `n` carries. -/
def wire (n : Nat) : UInt16 := UInt16.ofNat n

@[simp] theorem toNat_wire (n : Nat) : (wire n).toNat = n % 65536 := by
  simp [wire]

theorem toNat_wire_of_lt {n : Nat} (h : n < 65536) : (wire n).toNat = n := by
  rw [toNat_wire, Nat.mod_eq_of_lt h]

@[simp] theorem wire_toNat (x : UInt16) : wire x.toNat = x := by
  rw [← UInt16.toNat_inj, toNat_wire, Nat.mod_eq_of_lt x.toNat_lt]

theorem wire_zero : wire 0 = 0 := rfl

theorem wire_one : wire 1 = 1 := rfl

theorem wire_add_one (n : Nat) : wire n + 1 = wire (n + 1) := by
  rw [← UInt16.toNat_inj, UInt16.toNat_add, toNat_wire, toNat_wire]
  simp

theorem wire_sub_one (n : Nat) : wire (n + 1) - 1 = wire n := by
  rw [← wire_add_one]
  exact UInt16.add_sub_cancel _ _

theorem wire_inj {m n : Nat} (h : m < n + 65536) (h' : n < m + 65536) :
    wire m = wire n ↔ m = n := by
  rw [← UInt16.toNat_inj, toNat_wire, toNat_wire]
  omega

theorem toNat_wire_sub_of_le {m n : Nat} (h : m ≤ n) (h' : n < m + 65536) :
    (wire n - wire m).toNat = n - m := by
  rw [UInt16.toNat_sub, toNat_wire, toNat_wire]
  omega

theorem toNat_wire_sub_of_lt {m n : Nat} (h : n < m) (h' : m < n + 65536) :
    (wire n - wire m).toNat = 65536 - (m - n) := by
  rw [UInt16.toNat_sub, toNat_wire, toNat_wire]
  omega

end SeqNum
